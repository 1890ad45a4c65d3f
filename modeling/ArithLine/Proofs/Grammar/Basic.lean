import ArithLine.Tree.Unfinished
import Mathlib.Computability.RegularExpressions

/-!
# The grammar of a line

The grammar is data: `Grammar.body` gives every nonterminal a regular expression
over terminals and nonterminals. In its context-free reading the alternatives
are not ordered and repetition counts are free:

* `Derivation.Valid`: at each inner node the children spell a word of the
  nonterminal's expression, and each leaf is a token of its terminal's kind.
* `Covers`: some tokens cover a text, with blanks anywhere between them and at
  both ends. A word is a whole maximal run of word characters.
* `Derives`: a derivation of `program` whose leaves cover a line.

`Derivation.lower` drops what a parse tree does not show. It is where the blanks
after a chain of two operands enter a span.
-/

namespace ArithLine

/-- Whether a character may stand in a word. -/
def isWordChar (c : Char) : Bool := !isBlank c && (Glyph.ofChar? c).isNone

namespace Grammar

/-- A kind of token. -/
inductive Terminal where
  | numeral
  | name
  | reserved
  | glyph (g : Glyph)
  | unknown
  deriving DecidableEq, Repr

/-- A rule of the grammar that leaves no node in a parse tree. -/
inductive Layer where
  | sum
  | product
  | atom
  | binding
  deriving DecidableEq, Repr

/-- A rule of the grammar. -/
inductive Nonterminal where
  | rule (r : Rule)
  | layer (l : Layer)
  deriving DecidableEq, Repr

/-- What a rule's expression is made of. -/
inductive Symbol where
  | terminal (k : Terminal)
  | nonterminal (n : Nonterminal)
  deriving DecidableEq, Repr

open RegularExpression (char star)

/-- One token of a kind. -/
def token (k : Terminal) : RegularExpression Symbol := char (.terminal k)

/-- One part that keeps its node. -/
def rule (r : Rule) : RegularExpression Symbol := char (.nonterminal (.rule r))

/-- One part that leaves no node. -/
def layer (l : Layer) : RegularExpression Symbol := char (.nonterminal (.layer l))

/-- One or more of the same. -/
def oneOrMore (e : RegularExpression Symbol) : RegularExpression Symbol := e * star e

/-- The operands of a chain: sums hold products, products hold atoms. -/
def operand (o : Op) : Layer := if o.isTight then .atom else .product

/-- What each rule of the grammar stands for. -/
def body : Nonterminal → RegularExpression Symbol
  | .rule .program => rule .expr
  | .rule .expr => layer .sum
  | .rule .var => token .name
  | .rule .numeral => token .numeral
  | .rule (.chain o) => layer (operand o) * oneOrMore (token (.glyph (.op o)) * layer (operand o))
  | .rule .letForm =>
    token (.glyph .opening) * token .reserved * token (.glyph .opening) * oneOrMore (layer .binding) *
      token (.glyph .closing) * rule .expr * token (.glyph .closing)
  | .layer .sum => rule (.chain .add) + rule (.chain .sub) + layer .product
  | .layer .product => rule (.chain .mul) + rule (.chain .div) + layer .atom
  | .layer .atom =>
    rule .letForm + rule .numeral + rule .var +
      token (.glyph .opening) * rule .expr * token (.glyph .closing) + token .unknown
  | .layer .binding =>
    token (.glyph .opening) * token .name * rule .expr * token (.glyph .closing)

/-- Whether a lexeme is a token of a kind. A numeral may have a minus; a word that is
neither a numeral nor a name is unknown, the reserved word included. -/
def Terminal.Admits : Terminal → Lexeme → Prop
  | numeral, .word w => Word.isNumeral w
  | numeral, .signed ds => Word.isNumeral ds
  | name, .word w => Word.isName w
  | reserved, .word w => w = Word.reserved
  | glyph g, .glyph h => g = h
  | unknown, .word w => ¬ Word.isNumeral w ∧ ¬ Word.isName w
  | _, _ => False

/-- A derivation: a token with its kind, or a rule with the derivations of its parts. -/
inductive Derivation where
  | leaf (k : Terminal) (t : Token)
  | node (n : Nonterminal) (parts : List Derivation)

namespace Derivation

/-- What a derivation is a derivation of. -/
def symbol : Derivation → Symbol
  | leaf k _ => .terminal k
  | node n _ => .nonterminal n

mutual

/-- The tokens of a derivation. -/
def yield : Derivation → List Token
  | leaf _ t => [t]
  | node _ ds => yieldAll ds

/-- The tokens of some derivations. -/
def yieldAll : List Derivation → List Token
  | [] => []
  | d :: ds => d.yield ++ yieldAll ds

end

/-- Every node's parts spell a word of its rule. -/
inductive Valid : Derivation → Prop
  | leaf {k : Terminal} {t : Token} (admits : k.Admits t.lexeme) : Valid (leaf k t)
  | node {n : Nonterminal} {ds : List Derivation} (word : ds.map symbol ∈ (body n).matches')
      (parts : ∀ d ∈ ds, Valid d) : Valid (node n ds)

end Derivation

end Grammar

open Grammar

/-- Whether a lexeme may stand before the rest of a line: a word goes on for as long
as it can, and a minus touches the digits that it is kept with. -/
def Lexeme.Precedes (rest : List Char) : Lexeme → Prop
  | glyph _ => True
  | word w => w ≠ [] ∧ w.all isWordChar ∧ rest.head?.any isWordChar = false
  | signed ds => Word.isNumeral ds ∧ rest.head?.any isWordChar = false

/-- **Tokens cover a text** that starts at byte `n`: the text is the tokens in order with
blanks between them and at both ends. What stands before a word is the start of the
text, a blank, a glyph or a word that could not go on, so a word is a maximal run on
either side. -/
inductive Covers : ℕ → List Token → List Char → Prop
  | done (n : ℕ) : Covers n [] []
  | blank {n : ℕ} {c : Char} {ts : List Token} {cs : List Char} (isBlank : isBlank c)
      (rest : Covers (n + c.utf8Size) ts cs) : Covers n ts (c :: cs)
  | token {n : ℕ} {l : Lexeme} {ts : List Token} {cs : List Char} (precedes : l.Precedes cs)
      (rest : Covers (n + byteLength l.chars) ts cs) : Covers n (⟨l, n⟩ :: ts) (l.chars ++ cs)

/-- **A derivation of a line.** -/
structure Derives (line : String) (d : Derivation) : Prop where
  symbol : d.symbol = .nonterminal (.rule .program)
  valid : d.Valid
  covers : Covers 0 d.yield line.toList

/-- The characters from a byte on. -/
def dropBytes : ℕ → List Char → List Char
  | _, [] => []
  | n, c :: cs => if n = 0 then c :: cs else dropBytes (n - c.utf8Size) cs

/-- The byte after the blanks that start at a byte. -/
def skipBlanks (line : List Char) (n : ℕ) : ℕ :=
  n + byteLength ((dropBytes n line).takeWhile isBlank)

namespace Grammar.Derivation

/-- The bytes that the node of a rule with so many parts covers: a program all of its
line; a chain of just two operands its children and the blanks that follow; any other
node its children. -/
def extent (line : List Char) (r : Rule) (parts : ℕ) (ts : List Tree) : Span :=
  let e := Tree.extent ts
  match r with
  | .program => ⟨0, byteLength line⟩
  | .chain _ => if parts = 3 then ⟨e.start, skipBlanks line e.stop⟩ else e
  | _ => e

mutual

/-- The parse trees of a derivation: a token is a leaf, an unknown word a bad one, and a
layer gives way to its parts. -/
def lower (line : List Char) : Derivation → List Tree
  | leaf k t => [if k = .unknown then .bad t.text t.span else t.leaf]
  | node (.layer _) ds => lowerAll line ds
  | node (.rule r) ds => [.node r (lowerAll line ds) (extent line r ds.length (lowerAll line ds))]

/-- The parse trees of some derivations. -/
def lowerAll (line : List Char) : List Derivation → List Tree
  | [] => []
  | d :: ds => d.lower line ++ lowerAll line ds

end

end Grammar.Derivation

end ArithLine
