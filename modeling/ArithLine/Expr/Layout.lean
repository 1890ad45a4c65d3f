import ArithLine.Expr.Basic
import ArithLine.Text.Numeral
import ArithLine.Text.Quoted

/-!
# Layouts of an expression

An expression is shown as nested calls and lists, either on one line
(`Expr.inline`) or over several, indented by four spaces a level
(`Expr.indented`). Both are read off the same `Layout`.
-/

namespace ArithLine

/-- A text with nested parts. -/
inductive Layout where
  | atom (text : String)
  | call (head : String) (argument : Layout)
  | list (items : List Layout)
  deriving Repr, Inhabited

namespace Layout

mutual

/-- A layout on one line. -/
def inline : Layout → String
  | atom s => s
  | call h a => h ++ "(" ++ a.inline ++ ")"
  | list ts => "[" ++ inlineAll ts ++ "]"

/-- Some layouts on one line, with commas between them. -/
def inlineAll : List Layout → String
  | [] => ""
  | [t] => t.inline
  | t :: ts => t.inline ++ ", " ++ inlineAll ts

end

/-- The blanks before a line at a level. -/
def margin (level : Nat) : String := .ofList (List.replicate (4 * level) ' ')

mutual

/-- A layout over several lines. The first is not indented and the last not
ended; every part stands on a line of its own, a level deeper and followed by a
comma. -/
def indented (level : Nat) : Layout → String
  | atom s => s
  | call h a =>
    h ++ "(\n" ++ margin (level + 1) ++ a.indented (level + 1) ++ ",\n" ++ margin level ++ ")"
  | list [] => "[]"
  | list ts => "[\n" ++ indentedAll (level + 1) ts ++ margin level ++ "]"

/-- Some layouts, each on lines of its own. -/
def indentedAll (level : Nat) : List Layout → String
  | [] => ""
  | t :: ts => margin level ++ t.indented level ++ ",\n" ++ indentedAll level ts

end

end Layout

namespace Expr

mutual

/-- The layout of an expression. -/
def layout : Expr → Layout
  | const n => .call "Const" (.atom (Numeral.ofInt n.toInt))
  | var x => .call "Var" (.atom (quoted x))
  | chain o es => .call o.tag (.list (layoutAll es))
  | error => .atom "Error"

/-- The layouts of some expressions. -/
def layoutAll : List Expr → List Layout
  | [] => []
  | e :: es => e.layout :: layoutAll es

end

/-- An expression on one line. -/
def inline (e : Expr) : String := e.layout.inline

/-- An expression over several lines. -/
def indented (e : Expr) : String := e.layout.indented 0

end Expr

end ArithLine
