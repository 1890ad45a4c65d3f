import ArithLine.Failure
import ArithLine.Snippet

/-!
# Reports

A report tells in plain sentences what failed, where, and what may help. It ends
with the failure's code.
-/

namespace ArithLine

namespace Snippet

/-- Where a label stands in a quoted line, in words. -/
def Place.words (number : Nat) (p : Place) : String :=
  let line := "line " ++ Numeral.ofNat number
  match p with
  | inside a b =>
    "label at " ++ line ++
      if a = b then ", column " ++ Numeral.ofNat a
      else ", columns " ++ Numeral.ofNat a ++ " to " ++ Numeral.ofNat b
  | starts a => "label starting at " ++ line ++ ", column " ++ Numeral.ofNat a
  | ends b => "label ending at " ++ line ++ ", column " ++ Numeral.ofNat b

/-- The report of a quoted line: its text, and the label if it stands there. -/
def Quoted.report (label : Label) (q : Quoted) : List String :=
  ("snippet line " ++ Numeral.ofNat q.number ++ ": " ++ .ofList q.line.text) ::
    match place? label.span q with
    | some p => ["    " ++ p.words q.number ++ ": " ++ label.text]
    | none => []

/-- The report of the part of a source that a label points at. -/
def report (s : Source) (label : Label) : List String :=
  let w := window label.span s.content.toList
  ("Begin snippet for " ++ s.name ++ " starting at line " ++ Numeral.ofNat (w.skipped + 1) ++
    ", column 1") :: "" :: w.quoted.flatMap (Quoted.report label)

end Snippet

/-- The lines of a failure's report. -/
def Failure.reportLines (f : Failure) : List String :=
  [f.message, "    Diagnostic severity: error"] ++
    (match f.source?, f.label? with
      | some s, some l => Snippet.report s l
      | _, _ => []) ++
    (match f.help? with
      | some h => ["diagnostic help: " ++ h]
      | none => []) ++
    ["diagnostic code: " ++ f.code, ""]

/-- The report of a failure; an empty line ends it. -/
def Failure.report (f : Failure) : String := String.join (f.reportLines.map (· ++ "\n"))

end ArithLine
