/-!
# Usage

The texts that a command line may ask for instead of a result: a summary of the
options, a longer one, and the version.
-/

namespace ArithLine.Usage

/-- Some lines, each with its end. -/
def unlines (ls : List String) : String := String.join (ls.map (· ++ "\n"))

/-- What both summaries begin with. -/
def opening : List String := [
  "Read VarLang arithmetic and print its abstract syntax tree.",
  "",
  "Usage: varlang [OPTIONS] [EXPR]",
  "",
  "Arguments:"]

/-- The summary with one line for each option. -/
def short : String := unlines (opening ++ [
  "  [EXPR]  Expression to read. Without it, lines are read from standard input",
  "",
  "Options:",
  "      --tree                       Also print the concrete parse tree",
  "      --format <FORMAT>            How to print the resulting program [default: debug] " ++
    "[possible values: debug, pretty, json]",
  "      --diagnostics <DIAGNOSTICS>  Where conversion diagnostics go [default: print] " ++
    "[possible values: print, log]",
  "  -v, --verbose...                 Raise the log level (-v info, -vv debug, -vvv trace)",
  "  -h, --help                       Print help (see more with '--help')",
  "  -V, --version                    Print version"])

/-- The line between an option's values and its default. -/
def gap : String := .ofList (List.replicate 10 ' ')

/-- The summary that explains each option and its values. -/
def long : String := unlines (opening ++ [
  "  [EXPR]",
  "          Expression to read. Without it, lines are read from standard input",
  "",
  "Options:",
  "      --tree",
  "          Also print the concrete parse tree",
  "",
  "      --format <FORMAT>",
  "          How to print the resulting program",
  "",
  "          Possible values:",
  "          - debug:  Single-line `Debug` rendering",
  "          - pretty: Indented `Debug` rendering",
  "          - json:   JSON",
  gap,
  "          [default: debug]",
  "",
  "      --diagnostics <DIAGNOSTICS>",
  "          Where conversion diagnostics go",
  "",
  "          Possible values:",
  "          - print: Print alongside the output, highlighted",
  "          - log:   Send to the log as warnings",
  gap,
  "          [default: print]",
  "",
  "  -v, --verbose...",
  "          Raise the log level (-v info, -vv debug, -vvv trace)",
  "",
  "  -h, --help",
  "          Print help (see a summary with '-h')",
  "",
  "  -V, --version",
  "          Print version"])

/-- The name and the version of the program. -/
def version : String := "varlang 0.1.0\n"

end ArithLine.Usage
