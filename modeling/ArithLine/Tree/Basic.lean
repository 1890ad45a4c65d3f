import ArithLine.Rule
import ArithLine.Span

/-!
# Parse trees

A parse tree keeps every token of its line: a leaf is a token or a bad word that
stands where an operand was wanted, an inner node names the rule that its
children make up. `text` reads the leaves back, `dump` shows the nesting.
-/

namespace ArithLine

/-- A parse tree over a line of text. -/
inductive Tree where
  /-- An inner node. -/
  | node (rule : Rule) (children : List Tree) (span : Span)
  /-- A token. -/
  | token (text : String) (span : Span)
  /-- A word that is neither a numeral nor a name. -/
  | bad (text : String) (span : Span)
  deriving Repr, Inhabited

namespace Tree

/-- The bytes that a tree covers. -/
def span : Tree → Span
  | node _ _ s | token _ s | bad _ s => s

/-- The rule of an inner node. -/
def rule? : Tree → Option Rule
  | node r _ _ => some r
  | _ => none

/-- The children of an inner node; a leaf has none. -/
def children : Tree → List Tree
  | node _ ts _ => ts
  | _ => []

/-- The span from the first of some trees to the last. -/
def extent (ts : List Tree) : Span :=
  match ts.head?, ts.getLast? with
  | some t, some u => t.span.through u.span
  | _, _ => .zero

/-- A node that covers just its children. -/
def spanning (r : Rule) (ts : List Tree) : Tree := node r ts (extent ts)

/-- A token that stands for itself, at the start of a line. -/
def ofToken (s : String) : Tree := token s ⟨0, s.utf8ByteSize⟩

/-- A bad word that stands for itself, at the start of a line. -/
def ofBad (s : String) : Tree := bad s ⟨0, s.utf8ByteSize⟩

mutual

/-- The texts of a tree's leaves, joined. -/
def text : Tree → String
  | node _ ts _ => textAll ts
  | token s _ | bad s _ => s

/-- The texts of the leaves of some trees, joined. -/
def textAll : List Tree → String
  | [] => ""
  | t :: ts => t.text ++ textAll ts

end

mutual

/-- A tree on one line: a leaf as its text, a node as its rule's name and its
children in parentheses, a childless node as its rule's name alone. -/
def dump : Tree → String
  | node r [] _ => r.name
  | node r ts _ => "(" ++ r.name ++ dumpAll ts ++ ")"
  | token s _ | bad s _ => s

/-- The dumps of some trees, each after a space. -/
def dumpAll : List Tree → String
  | [] => ""
  | t :: ts => " " ++ t.dump ++ dumpAll ts

end

end Tree

end ArithLine
