import ArithLine.Event
import ArithLine.Expr.Format

/-!
# Options

What a command line chooses: the expression to read, what is printed of it and
how, where its diagnostics go, and how much is logged.
-/

namespace ArithLine

/-- Where diagnostics go. -/
inductive DiagnosticMode where
  /-- Into the output. -/
  | print
  /-- Into the log. -/
  | log
  deriving DecidableEq, Repr, Inhabited

/-- The choices of a command line. -/
structure Options where
  /-- The expression to read. Without one, lines are read from a prompt. -/
  expr : Option String := none
  /-- Whether the tree is printed too. -/
  tree : Bool := false
  format : Format := .inline
  diagnostics : DiagnosticMode := .print
  /-- How often more logging was asked for. -/
  verbosity : Nat := 0
  deriving DecidableEq, Repr, Inhabited

/-- The least severe events that are logged. -/
def Options.threshold (o : Options) : Severity :=
  match o.verbosity with
  | 0 => .warn
  | 1 => .info
  | 2 => .debug
  | _ => .trace

/-- The value of an option that names a format. -/
def Format.ofValue? : String → Option Format
  | "debug" => some .inline
  | "pretty" => some .indented
  | "json" => some .json
  | _ => none

/-- The value of an option that says where diagnostics go. -/
def DiagnosticMode.ofValue? : String → Option DiagnosticMode
  | "print" => some .print
  | "log" => some .log
  | _ => none

end ArithLine
