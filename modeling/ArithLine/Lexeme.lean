import ArithLine.Rule
import ArithLine.Span
import ArithLine.Word

/-!
# Lexemes

A line is cut into blanks, glyphs (parentheses and operators) and words. A minus
glyph that touches a numeral is kept together with it as one `signed` lexeme:
whether it is an operator and a numeral or a negative numeral depends on what is
wanted where it stands, and only the reader of the lexemes knows that.

Cutting loses nothing: the characters of the pieces, joined, are the line
(`chars_pieces`).
-/

namespace ArithLine

/-- A character that is a token by itself. -/
inductive Glyph where
  | opening
  | closing
  | op (op : Op)
  deriving DecidableEq, Repr, Inhabited

namespace Glyph

/-- The character of a glyph. -/
def char : Glyph → Char
  | opening => '('
  | closing => ')'
  | op o => o.glyph

/-- All glyphs, parentheses first. -/
def all : List Glyph := opening :: closing :: Op.all.map op

/-- The glyph that a character is, if it is one. -/
def ofChar? (c : Char) : Option Glyph := all.find? (·.char == c)

theorem char_of_ofChar? {c : Char} {g : Glyph} (h : ofChar? c = some g) : g.char = c := by
  simpa using List.find?_some h

theorem ofChar?_char (g : Glyph) : ofChar? g.char = some g := by
  rcases g with _ | _ | (_ | _ | _ | _) <;> decide

end Glyph

/-- A token of a line, before it is known what is wanted where it stands. -/
inductive Lexeme where
  | glyph (g : Glyph)
  | word (w : List Char)
  /-- A minus and the digits that touch it. -/
  | signed (digits : List Char)
  deriving DecidableEq, Repr, Inhabited

/-- A part of a line: a blank or a lexeme. -/
inductive Piece where
  | blank (c : Char)
  | lexeme (l : Lexeme)
  deriving DecidableEq, Repr, Inhabited

/-- The number of bytes in the UTF-8 encoding of some characters. -/
def byteLength (cs : List Char) : Nat := cs.foldr (fun c n => c.utf8Size + n) 0

/-- The characters of a lexeme. -/
def Lexeme.chars : Lexeme → List Char
  | glyph g => [g.char]
  | word w => w
  | signed ds => '-' :: ds

/-- The characters of a piece. -/
def Piece.chars : Piece → List Char
  | blank c => [c]
  | lexeme l => l.chars

/-- Puts a character before the pieces of the rest of a line. -/
def Piece.attach (c : Char) (rest : List Piece) : List Piece :=
  match Glyph.ofChar? c, rest with
  | some (.op .sub), lexeme (.word w) :: r =>
    if Word.isNumeral w then lexeme (.signed w) :: r else lexeme (.glyph (.op .sub)) :: rest
  | some g, _ => lexeme (.glyph g) :: rest
  | none, lexeme (.word w) :: r =>
    if isBlank c then blank c :: rest else lexeme (.word (c :: w)) :: r
  | none, _ => if isBlank c then blank c :: rest else lexeme (.word [c]) :: rest

/-- The pieces of a line, in order. -/
def pieces (line : List Char) : List Piece := line.foldr Piece.attach []

theorem Piece.chars_attach (c : Char) (rest : List Piece) :
    (attach c rest).flatMap chars = c :: rest.flatMap chars := by
  have hg : ∀ {g : Glyph}, Glyph.ofChar? c = some g → g.char = c := Glyph.char_of_ofChar?
  unfold attach
  split
  · next h =>
    obtain rfl : '-' = c := hg h
    split <;> simp [chars, Lexeme.chars, Glyph.char, Op.glyph]
  · next h _ => simp [chars, Lexeme.chars, hg h]
  all_goals split <;> simp [chars, Lexeme.chars]

/-- The characters of the pieces, joined, are the line. -/
theorem chars_pieces (line : List Char) : (pieces line).flatMap Piece.chars = line := by
  induction line with
  | nil => rfl
  | cons c r ih => rw [pieces, List.foldr_cons, Piece.chars_attach]; exact congrArg _ ih

/-- A lexeme and the byte at which it starts. -/
structure Token where
  lexeme : Lexeme
  start : Nat
  deriving DecidableEq, Repr, Inhabited

namespace Token

/-- The byte at which a token ends. -/
def stop (t : Token) : Nat := t.start + byteLength t.lexeme.chars

/-- The bytes that a token covers. -/
def span (t : Token) : Span := ⟨t.start, t.stop⟩

/-- The text of a token. -/
def text (t : Token) : String := .ofList t.lexeme.chars

/-- The lexemes of some pieces with their places, the first piece starting at byte `n`. -/
def place (n : Nat) : List Piece → List Token
  | [] => []
  | .blank c :: r => place (n + c.utf8Size) r
  | .lexeme l :: r => ⟨l, n⟩ :: place (n + byteLength l.chars) r

/-- The tokens of a line. -/
def ofLine (line : String) : List Token := place 0 (pieces line.toList)

end Token

end ArithLine
