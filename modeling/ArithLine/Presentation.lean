import ArithLine.CommandLine.Options
import ArithLine.Styled

/-!
# Presenting a line

What is printed and logged for one source under given options. A line that is
refused prints nothing; one that means nothing still shows its tree and its
diagnostics before it fails.
-/

namespace ArithLine

/-- What comes of a source: the output, the log, and why there is no program if
there is none. -/
structure Presentation where
  output : List Segment := []
  events : List Event := []
  failure : Option Failure := none
  deriving Repr, Inhabited

namespace DiagnosticMode

/-- The diagnostics that are printed. -/
def printed : DiagnosticMode → List Diagnostic → List Diagnostic
  | print, ds => ds
  | log, _ => []

/-- The notes that are logged. Visits are logged in either mode. -/
def logged : DiagnosticMode → List Note → List Note
  | print, ns => ns.filter fun n => n.diagnostic?.isNone
  | log, ns => ns

end DiagnosticMode

/-- The output and the log of a source whose tree is known. -/
def Source.presentTree (s : Source) (o : Options) (t : Tree) : Presentation :=
  let shown := if o.tree then t.segments else []
  let warnings := (o.diagnostics.printed t.programDiagnostics).flatMap Diagnostic.segments
  let events := (o.diagnostics.logged t.programNotes).map Event.ofNote
  match s.programOf t with
  | .ok p => { output := shown ++ warnings ++ p.segments o.format, events }
  | .error f => { output := shown ++ warnings, events, failure := some f }

/-- The output and the log of a source. -/
def Source.present (s : Source) (o : Options) : Presentation :=
  match s.tree with
  | .ok t => s.presentTree o t
  | .error f => { failure := some f }

end ArithLine
