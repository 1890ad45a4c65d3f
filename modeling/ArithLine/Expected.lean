import ArithLine.Lexeme

/-!
# What a reader expects

When a line is refused, the report lists what could have stood at the place of
the fault: the end of the line, a form of the grammar, or a single token.
-/

namespace ArithLine

/-- Something that may stand at a place of a line. -/
inductive Expected where
  | endOfInput
  | form (rule : Rule)
  | numeral
  | name
  | reserved
  | glyph (g : Glyph)
  | unknown
  deriving DecidableEq, Repr, Inhabited

namespace Expected

/-- How a report writes an expected item: a glyph between single quotes. -/
def text : Expected → String
  | endOfInput => "end of input"
  | form r => r.name
  | numeral => "number"
  | name => "identifier"
  | reserved => "let_kw"
  | glyph g => .ofList ['\'', g.char, '\'']
  | unknown => "unknown"

/-- Some expected items on one line. -/
def list (items : List Expected) : String := ", ".intercalate (items.map text)

end Expected

end ArithLine
