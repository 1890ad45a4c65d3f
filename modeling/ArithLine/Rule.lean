/-!
# Operators and rules

`Op` is one of the four operators, `Rule` one of the nine rules that name an
inner node of a parse tree. Every rule has a stable position (`index`), a short
lower-case name (`name`) that dumps and stored trees use, and a label
(`label`) for reports.
-/

namespace ArithLine

/-- An arithmetic operator. -/
inductive Op where
  | add
  | sub
  | mul
  | div
  deriving DecidableEq, Repr, Inhabited

namespace Op

/-- The character that stands for the operator in a line. -/
def glyph : Op → Char
  | add => '+'
  | sub => '-'
  | mul => '*'
  | div => '/'

/-- Whether the operator binds tighter than a sum. -/
def isTight : Op → Bool
  | add | sub => false
  | mul | div => true

/-- The tag of an operator's node in an expression. -/
def tag : Op → String
  | add => "Add"
  | sub => "Sub"
  | mul => "Mult"
  | div => "Div"

/-- All operators, sums first. -/
def all : List Op := [add, sub, mul, div]

theorem mem_all (o : Op) : o ∈ all := by cases o <;> decide

theorem glyph_injective {o p : Op} (h : o.glyph = p.glyph) : o = p := by
  cases o <;> cases p <;> first | rfl | simp [glyph] at h

end Op

/-- The rule of an inner node of a parse tree. -/
inductive Rule where
  | program
  | expr
  | var
  | numeral
  | chain (op : Op)
  | letForm
  deriving DecidableEq, Repr, Inhabited

namespace Rule

/-- All rules, in the order of their positions. -/
def all : List Rule :=
  [program, expr, var, numeral, chain .add, chain .sub, chain .mul, chain .div, letForm]

/-- The position of a rule among all rules. -/
def index : Rule → Nat
  | program => 0
  | expr => 1
  | var => 2
  | numeral => 3
  | chain .add => 4
  | chain .sub => 5
  | chain .mul => 6
  | chain .div => 7
  | letForm => 8

/-- The rule at a position. -/
def ofIndex? (i : Nat) : Option Rule := all[i]?

theorem ofIndex?_index (r : Rule) : ofIndex? r.index = some r := by
  rcases r with _ | _ | _ | _ | (_ | _ | _ | _) | _ <;> rfl

/-- The short name of a rule. -/
def name : Rule → String
  | program => "program"
  | expr => "exp"
  | var => "varexp"
  | numeral => "numexp"
  | chain .add => "addexp"
  | chain .sub => "subexp"
  | chain .mul => "multexp"
  | chain .div => "divexp"
  | letForm => "letexp"

/-- The capitalised name of a rule. -/
def label : Rule → String
  | program => "Program"
  | expr => "Exp"
  | var => "VarExp"
  | numeral => "NumExp"
  | chain .add => "AddExp"
  | chain .sub => "SubExp"
  | chain .mul => "MultExp"
  | chain .div => "DivExp"
  | letForm => "LetExp"

/-- The rule with a given short name. -/
def ofName? (s : String) : Option Rule := all.find? (·.name == s)

theorem ofName?_name (r : Rule) : ofName? r.name = some r := by
  rcases r with _ | _ | _ | _ | (_ | _ | _ | _) | _ <;> decide

end Rule

end ArithLine
