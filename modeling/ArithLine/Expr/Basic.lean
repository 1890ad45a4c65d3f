import ArithLine.Rule

/-!
# Expressions

An expression is what a line means: constants, variables and flat chains of one
operator. `Expr.error` stands for an operand that could not be understood, so
that the rest of a line keeps its shape.
-/

namespace ArithLine

/-- An arithmetic expression. -/
inductive Expr where
  | const (n : Int64)
  | var (name : String)
  | chain (op : Op) (operands : List Expr)
  | error
  deriving Repr, Inhabited

namespace Expr

/-- The operands of a chain; no other expression has any. -/
def operands : Expr → List Expr
  | chain _ es => es
  | _ => []

/-- Whether the expression itself was not understood. -/
def isError : Expr → Bool
  | error => true
  | _ => false

mutual

/-- Whether some part of the expression was not understood. -/
def containsError : Expr → Bool
  | error => true
  | chain _ es => anyContainsError es
  | _ => false

/-- Whether some part of some expressions was not understood. -/
def anyContainsError : List Expr → Bool
  | [] => false
  | e :: es => e.containsError || anyContainsError es

end

/-- The tag of an expression's topmost node. -/
def tag : Expr → String
  | const _ => "Const"
  | var _ => "Var"
  | chain o _ => o.tag
  | error => "Error"

end Expr

/-- What a whole line means: one expression. -/
structure Program where
  body : Expr
  deriving Repr, Inhabited

end ArithLine
