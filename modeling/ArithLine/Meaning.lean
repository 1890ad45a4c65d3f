import ArithLine.Diagnostic
import ArithLine.Expr.Basic
import ArithLine.Lexeme
import ArithLine.Text.Numeral

/-!
# The meaning of a tree

`Tree.expr?` turns any tree, parsed or built by hand, into an expression where
it has one. `Tree.notes` lists what there is to say about the way: every node
that was visited, and a diagnostic for every part that was not understood.
Neither depends on the other, so reporting cannot change a result.

A node for an expression or a numeral means what the first of its children with
a meaning means; a chain keeps every child with a meaning; a let form and a
nested program have none.
-/

namespace ArithLine

/-- Something that happens while a tree is converted. -/
inductive Note where
  /-- A node was visited. -/
  | visited (rule : Rule) (children : Nat)
  /-- A diagnostic was reported. -/
  | reported (d : Diagnostic)
  deriving DecidableEq, Repr, Inhabited

/-- The diagnostic of a note, if it reports one. -/
def Note.diagnostic? : Note → Option Diagnostic
  | visited .. => none
  | reported d => some d

namespace Tree

/-- Whether a token is a parenthesis or an operator. -/
def isGlyph (s : String) : Bool :=
  match s.toList with
  | [c] => (Glyph.ofChar? c).isSome
  | _ => false

mutual

/-- The expression that a tree means. -/
def expr? : Tree → Option Expr
  | node r ts _ =>
    match r with
    | .expr | .numeral => (exprs ts).head?
    | .var => ts.head?.map fun t => .var t.text
    | .chain o => some (.chain o (exprs ts))
    | .letForm | .program => none
  | token s _ =>
    if isGlyph s then none
    else some (match Numeral.read? s.toList with
      | some n => .const n
      | none => .error)
  | bad .. => some .error

/-- The expressions that some trees mean, without those that mean none. -/
def exprs : List Tree → List Expr
  | [] => []
  | t :: ts => t.expr?.toList ++ exprs ts

end

mutual

/-- What there is to say about the conversion of a tree, in order. -/
def notes : Tree → List Note
  | node r ts s =>
    .visited r ts.length ::
      match r with
      | .expr | .numeral | .chain _ => notesAll ts
      | .var => if ts.isEmpty then [.reported (.unhandledRule r s)] else []
      | .letForm | .program => [.reported (.unhandledRule r s)]
  | token s sp =>
    if isGlyph s || (Numeral.read? s.toList).isSome then []
    else [.reported (.illegalTerminal s sp)]
  | bad s sp => [.reported (.badWord s sp)]

/-- What there is to say about the conversion of some trees. -/
def notesAll : List Tree → List Note
  | [] => []
  | t :: ts => t.notes ++ notesAll ts

end

/-- The diagnostics of a tree's conversion. -/
def diagnostics (t : Tree) : List Diagnostic := t.notes.filterMap Note.diagnostic?

end Tree

/-- A part of a tree that should be a program and is none. -/
structure NoProgram where
  found : String
  span : Span
  deriving DecidableEq, Repr, Inhabited

namespace Tree

/-- The program that a whole line's tree means: the meaning of the first child
of its root. -/
def program : Tree → Except NoProgram Program
  | node .program (t :: _) _ =>
    match t.expr? with
    | some e => .ok ⟨e⟩
    | none => .error ⟨t.text, t.span⟩
  | t => .error ⟨t.text, t.span⟩

/-- What there is to say about the conversion of a whole line's tree. -/
def programNotes : Tree → List Note
  | node .program (t :: _) _ => t.notes
  | _ => []

/-- The diagnostics of the conversion of a whole line's tree. -/
def programDiagnostics (t : Tree) : List Diagnostic :=
  t.programNotes.filterMap Note.diagnostic?

end Tree

end ArithLine
