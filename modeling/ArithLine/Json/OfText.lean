import ArithLine.Json.Token

/-!
# Reading JSON

`Json.ofText?` reads a whole text as one value: strict JSON, with blanks around
it and nothing else after it. There is no limit on nesting.
-/

namespace ArithLine.Json

/-- A container that is not closed yet, its last entry first. -/
inductive Frame where
  | array (items : List Json)
  | object (fields : List (Option String × Json)) (key : Option String)

/-- What has been read of a text, by what is wanted next. -/
inductive Unfinished where
  | value (stack : List Frame)
  /-- The first item of an array, or its end. -/
  | firstItem (stack : List Frame)
  /-- The first key of an object, or its end. -/
  | firstKey (stack : List Frame)
  | key (stack : List Frame) (fields : List (Option String × Json))
  | colon (stack : List Frame) (fields : List (Option String × Json)) (key : Option String)
  /-- The end of a container, or its next entry. -/
  | ended (stack : List Frame) (v : Json)

namespace Unfinished

/-- Takes in a token where a value is wanted. -/
def stepValue (s : List Frame) (t : Token) : Option Unfinished :=
  match t with
  | .scalar v => some (ended s v)
  | .string x => some (ended s (.string x))
  | .mark '[' => some (firstItem s)
  | .mark '\x7b' => some (firstKey s)
  | .mark _ => none

/-- Takes in a token. -/
def step (u : Unfinished) (t : Token) : Option Unfinished :=
  match u, t with
  | value s, t => stepValue s t
  | firstItem s, .mark ']' => some (ended s (.array []))
  | firstItem s, t => stepValue (.array [] :: s) t
  | firstKey s, .mark '\x7d' => some (ended s (.object []))
  | firstKey s, .string k => some (colon s [] k)
  | key s fs, .string k => some (colon s fs k)
  | colon s fs k, .mark ':' => some (value (.object fs k :: s))
  | ended (.array vs :: s) v, .mark ',' => some (value (.array (v :: vs) :: s))
  | ended (.array vs :: s) v, .mark ']' => some (ended s (.array (v :: vs).reverse))
  | ended (.object fs k :: s) v, .mark ',' => some (key s ((k, v) :: fs))
  | ended (.object fs k :: s) v, .mark '\x7d' => some (ended s (.object ((k, v) :: fs).reverse))
  | _, _ => none

/-- The value of a text that ends here. -/
def finish? : Unfinished → Option Json
  | ended [] v => some v
  | _ => none

end Unfinished

/-- The value that a text writes. -/
def ofText? (s : String) : Option Json := do
  let ts ← Token.ofText? s.toList
  (← ts.foldlM Unfinished.step (.value [])).finish?

end ArithLine.Json
