import ArithLine.Tree.Unfinished

/-!
# Reading a line into a tree

`Tree.ofLine` feeds the tokens of a line to an unfinished tree. A line is
refused at the first token that cannot stand where it does, or at its end.
-/

namespace ArithLine

/-- Why a line is refused: the byte of the fault and what could have stood there. -/
structure Rejection where
  offset : Nat
  expected : List Expected
  deriving DecidableEq, Repr, Inhabited

/-- The report of a rejection. -/
def Rejection.message (r : Rejection) : String :=
  "syntax error: " ++
    if r.expected.isEmpty then "unexpected input" else "expected " ++ Expected.list r.expected

/-- Reads the remaining tokens of a line of `length` bytes. -/
def Unfinished.read (length : Nat) : Unfinished → List Token → Except Rejection Tree
  | u, [] =>
    match u.finish? length with
    | some t => .ok t
    | none => .error ⟨length, u.expected⟩
  | u, t :: ts =>
    match u.step t with
    | some v => read length v ts
    | none => .error ⟨t.start, u.expected⟩

/-- The tree of a line. -/
def Tree.ofLine (line : String) : Except Rejection Tree :=
  Unfinished.start.read line.utf8ByteSize (Token.ofLine line)

end ArithLine
