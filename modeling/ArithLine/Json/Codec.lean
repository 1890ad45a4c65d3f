import ArithLine.Expr.Basic
import ArithLine.Json.OfText
import ArithLine.Tree.Basic

/-!
# Stored values

Expressions, programs, rules, spans and trees are stored as JSON. A value of
several kinds is an object with one field, named for the kind, or a string where
the kind says all. A value with fields is an object or, when read, also an array
of the fields in order.

Reading opens at most `Codec.maxDepth` containers inside each other. What it
skips, the fields that it does not know, may nest to any depth.
-/

namespace ArithLine

namespace Codec

/-- The number of containers that a stored value may open inside each other. -/
def maxDepth : Nat := 127

/-- The number that a plain spelling of a whole number writes; a negative zero is
none. -/
def int? : Json → Option Int
  | .number cs => if cs = ['-', '0'] then none else Numeral.toInt? cs
  | _ => none

/-- A number of up to 64 bits with a sign. -/
def word? (v : Json) : Option Int64 := (int? v).bind Numeral.toWord?

/-- A number of up to 64 bits without a sign. -/
def nat? (v : Json) : Option Nat :=
  (int? v).bind fun n => if 0 ≤ n ∧ n.toNat < UInt64.size then some n.toNat else none

/-- A text. -/
def text? : Json → Option String
  | .string s => s
  | _ => none

/-- The values of a field in an object. -/
def lookup (name : String) (fs : List (Option String × Json)) : List Json :=
  (fs.filter (·.1 == some name)).map (·.2)

/-- The one value of a field in an object. -/
def field? (fs : List (Option String × Json)) (name : String) : Option Json :=
  match lookup name fs with
  | [v] => some v
  | _ => none

/-- The fields of a value, in the order of `names`: those of an object, which may
have others too, or the items of an array. -/
def fields? (names : List String) : Json → Option (List Json)
  | .object fs => if fs.all (·.1.isSome) then names.mapM (field? fs) else none
  | .array vs => if vs.length = names.length then some vs else none
  | _ => none

/-- The kind of a value and what stands under it, if anything may. -/
def tag? : Json → Option (String × Option Json)
  | .string (some k) => some (k, none)
  | .object [(some k, v)] => some (k, some v)
  | _ => none

end Codec

/-! ## Rules and spans -/

/-- A rule is stored as its name. -/
def Rule.toJson (r : Rule) : Json := .text r.name

/-- Reads a rule within `depth` containers. -/
def Rule.ofJsonWithin? (depth : Nat) (v : Json) : Option Rule :=
  match Codec.tag? v with
  | some (k, none) => ofName? k
  | some (k, some .null) => if 0 < depth then ofName? k else none
  | _ => none

/-- A span is stored as its two ends. -/
def Span.toJson (s : Span) : Json := .record [("start", .int s.start), ("end", .int s.stop)]

/-- Reads a span within `depth` containers. -/
def Span.ofJsonWithin? (depth : Nat) (v : Json) : Option Span :=
  if 0 < depth then
    match Codec.fields? ["start", "end"] v with
    | some [a, b] => do return ⟨← Codec.nat? a, ← Codec.nat? b⟩
    | _ => none
  else none

/-! ## Expressions -/

namespace Expr

mutual

/-- An expression is stored under its tag. -/
def toJson : Expr → Json
  | const n => .tagged "Const" (.int n.toInt)
  | var x => .tagged "Var" (.text x)
  | chain o es => .tagged o.tag (.array (toJsonAll es))
  | error => .text "Error"

/-- The stored forms of some expressions. -/
def toJsonAll : List Expr → List Json
  | [] => []
  | e :: es => e.toJson :: toJsonAll es

end

/-- Reads an expression within `depth` containers. -/
def ofJsonWithin? (depth : Nat) (v : Json) : Option Expr :=
  match Codec.tag? v, depth with
  | some ("Error", none), _ => some error
  | some ("Error", some .null), _ + 1 => some error
  | some ("Const", some v), _ + 1 => (Codec.word? v).map const
  | some ("Var", some v), _ + 1 => (Codec.text? v).map var
  | some (k, some (.array vs)), d + 2 => do
    let o ← Op.all.find? (·.tag == k)
    return chain o (← vs.mapM (ofJsonWithin? d))
  | _, _ => none

end Expr

/-- A program is stored as its one field. -/
def Program.toJson (p : Program) : Json := .record [("exp", p.body.toJson)]

/-- Reads a program within `depth` containers. -/
def Program.ofJsonWithin? (depth : Nat) (v : Json) : Option Program :=
  match Codec.fields? ["exp"] v, depth with
  | some [e], d + 1 => (Expr.ofJsonWithin? d e).map Program.mk
  | _, _ => none

/-! ## Trees -/

namespace Tree

mutual

/-- A tree is stored under its kind. -/
def toJson : Tree → Json
  | node r ts s => .tagged "Rule" (.record
      [("rule", r.toJson), ("children", .array (toJsonAll ts)), ("span", s.toJson)])
  | token x s => .tagged "Terminal" (.record [("text", .text x), ("span", s.toJson)])
  | bad x s => .tagged "Error" (.record [("text", .text x), ("span", s.toJson)])

/-- The stored forms of some trees. -/
def toJsonAll : List Tree → List Json
  | [] => []
  | t :: ts => t.toJson :: toJsonAll ts

end

/-- Reads the text and the span of a leaf within `depth` containers. -/
def leafOfJson? (depth : Nat) (v : Json) : Option (String × Span) :=
  match Codec.fields? ["text", "span"] v with
  | some [x, s] => do return (← Codec.text? x, ← Span.ofJsonWithin? depth s)
  | _ => none

/-- Reads a tree within `depth` containers: one for the tree, one for its fields
and one for its children or its span. -/
def ofJsonWithin? (depth : Nat) (v : Json) : Option Tree :=
  match Codec.tag? v, depth with
  | some ("Terminal", some v), d + 2 => (leafOfJson? d v).map fun l => token l.1 l.2
  | some ("Error", some v), d + 2 => (leafOfJson? d v).map fun l => bad l.1 l.2
  | some ("Rule", some v), d + 3 =>
    match Codec.fields? ["rule", "children", "span"] v with
    | some [r, .array vs, s] => do
      return node (← Rule.ofJsonWithin? (d + 1) r) (← vs.mapM (ofJsonWithin? d))
        (← Span.ofJsonWithin? (d + 1) s)
    | _ => none
  | _, _ => none

end Tree

/-! ## Whole texts -/

namespace Codec

/-- Reads a whole text. -/
def read? {α : Type} (decode : Nat → Json → Option α) (s : String) : Option α :=
  (Json.ofText? s).bind (decode maxDepth)

end Codec

/-- Reads a stored rule. -/
def Rule.ofJson? (s : String) : Option Rule := Codec.read? ofJsonWithin? s

/-- Reads a stored span. -/
def Span.ofJson? (s : String) : Option Span := Codec.read? ofJsonWithin? s

/-- Reads a stored expression. -/
def Expr.ofJson? (s : String) : Option Expr := Codec.read? ofJsonWithin? s

/-- Reads a stored program. -/
def Program.ofJson? (s : String) : Option Program := Codec.read? ofJsonWithin? s

/-- Reads a stored tree. -/
def Tree.ofJson? (s : String) : Option Tree := Codec.read? ofJsonWithin? s

end ArithLine
