import ArithLine.CommandLine.Arguments
import ArithLine.CommandLine.Usage
import ArithLine.Presentation
import ArithLine.Report
import ArithLine.Session
import ArithLine.Text.Space

/-!
# A whole run

`run` takes a command line and all bytes of the standard input to what the
program writes and the code it ends with. An expression on the command line is
presented at once; without one, a prompt reads lines until the input ends. A line
that fails is reported and the next one is read, but bytes that are no text end
the run.
-/

namespace ArithLine

/-- What a run writes, and the code it ends with. -/
structure Outcome where
  stdout : String := ""
  stderr : String := ""
  code : Nat := 0
  deriving DecidableEq, Repr, Inhabited

/-- What comes before the rest of a run. -/
def Outcome.before (stdout stderr : String) (rest : Outcome) : Outcome :=
  { rest with stdout := stdout ++ rest.stdout, stderr := stderr ++ rest.stderr }

/-- The report that ends a run. -/
def Failure.final (f : Failure) : String := "Error: " ++ f.report

namespace Presentation

/-- The output without styles. -/
def stdout (p : Presentation) : String := Segment.render false p.output

/-- The events that options ask for, as lines of a log. -/
def logText (o : Options) (p : Presentation) : String :=
  String.join ((Event.atLeast o.threshold p.events).map Event.line)

end Presentation

namespace Prompt

/-- What answers a line. -/
inductive Turn where
  /-- The next line is read; `number` lines have been counted. -/
  | next (number : Nat) (stdout stderr : String)
  /-- The run ends with a failure. -/
  | stop (stderr : String)
  deriving DecidableEq, Repr, Inhabited

/-- What comes of a source at the prompt. A blank line gives nothing. -/
def present (o : Options) (s : Source) : Presentation :=
  if isBlankLine s.content then {} else s.present o

/-- The log of what comes of a source, and a report if it failed. -/
def told (o : Options) (p : Presentation) : String :=
  p.logText o ++ (p.failure.map Failure.report).getD ""

/-- Answers a line with its end, after `number` lines. -/
def answer (o : Options) (number : Nat) (line : List UInt8) : Turn :=
  let n := number + 1
  match Source.ofBytes? n line with
  | none => .stop (Failure.stream .invalidText).final
  | some s =>
    let p := present o s
    .next n p.stdout (told o p)

/-- What is written before a line is read. -/
def text : String := .ofList Session.prompt

/-- Answers the lines of an input, after `number` lines. -/
def converse (o : Options) (number : Nat) : List (List UInt8) → Outcome
  | [] => { stdout := text ++ "\n" }
  | line :: rest =>
    match answer o number line with
    | .next n out err => (converse o n rest).before (text ++ out) err
    | .stop err => { stdout := text, stderr := err, code := 1 }

end Prompt

/-- Presents an expression of the command line. -/
def Options.evaluate (o : Options) (expr : String) : Outcome :=
  let p := (Source.argument expr).present o
  { stdout := p.stdout
    stderr := p.logText o ++ (p.failure.map Failure.final).getD ""
    code := if p.failure.isSome then 1 else 0 }

namespace CommandLine

/-- What is wrong with a command line, in words. -/
def Halt.complaint : Halt → String
  | unknownArgument => "error: unexpected argument"
  | invalidValue => "error: invalid or missing value"
  | argumentConflict => "error: an option is given more than once"
  | tooManyValues => "error: unexpected value"
  | help _ | version => ""

/-- What a command line that asks for no result gives: a text, or a complaint. -/
def Halt.outcome : Halt → Outcome
  | .help true => { stdout := Usage.long }
  | .help false => { stdout := Usage.short }
  | .version => { stdout := Usage.version }
  | h => { stderr := h.complaint ++ "\n\nFor more information, try '--help'.\n", code := 2 }

end CommandLine

/-- A run of the program. -/
def run (args : List String) (stdin : List UInt8) : Outcome :=
  match Options.ofArguments args with
  | .error h => h.outcome
  | .ok o =>
    match o.expr with
    | some e => o.evaluate e
    | none => Prompt.converse o 0 (physicalLines stdin)

end ArithLine
