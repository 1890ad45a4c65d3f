import ArithLine.Expr.Layout
import ArithLine.Json.Codec

/-!
# Output formats

The three ways to write a program: on one line, over several lines, as JSON.
-/

namespace ArithLine

/-- How a program is written. -/
inductive Format where
  | inline
  | indented
  | json
  deriving DecidableEq, Repr, Inhabited

/-- The text of a program. -/
def Program.format (p : Program) : Format → String
  | .inline => p.body.inline
  | .indented => p.body.indented
  | .json => p.toJson.render

end ArithLine
