import ArithLine.Text.Numeral

/-!
# JSON values

A JSON value keeps what its text says: numbers as they are spelled, fields in
their order and as often as they occur. `Json.render` writes a value without
blanks. A text may hold half of a surrogate pair; such a string is `none`,
stands for no text and is never written.
-/

namespace ArithLine

/-- A JSON value. -/
inductive Json where
  | null
  | bool (b : Bool)
  | number (spelling : List Char)
  | string (s : Option String)
  | array (items : List Json)
  | object (fields : List (Option String × Json))
  deriving Repr, Inhabited

namespace Json

/-- A digit of base sixteen, in lower case. -/
def hexDigit (n : Nat) : Char := Nat.digitChar (n % 16)

/-- A character as it stands in a JSON string. -/
def escape (c : Char) : List Char :=
  match c with
  | '"' => ['\\', '"']
  | '\\' => ['\\', '\\']
  | '\x08' => ['\\', 'b']
  | '\x0c' => ['\\', 'f']
  | '\n' => ['\\', 'n']
  | '\r' => ['\\', 'r']
  | '\t' => ['\\', 't']
  | c =>
    if c.toNat < 0x20 then ['\\', 'u', '0', '0', hexDigit (c.toNat / 16), hexDigit c.toNat]
    else [c]

/-- The characters of a JSON string. -/
def encode (cs : List Char) : List Char := '"' :: (cs.flatMap escape ++ ['"'])

/-- A text as a JSON string. -/
def quote (s : String) : String := .ofList (encode s.toList)

mutual

/-- The text of a value, without blanks. -/
def render : Json → String
  | null => "null"
  | bool b => if b then "true" else "false"
  | number cs => .ofList cs
  | string s => quote (s.getD "")
  | array vs => "[" ++ renderItems vs ++ "]"
  | object fs => "\x7b" ++ renderFields fs ++ "\x7d"

/-- The texts of some items, with commas between them. -/
def renderItems : List Json → String
  | [] => ""
  | [v] => v.render
  | v :: vs => v.render ++ "," ++ renderItems vs

/-- The texts of some fields, with commas between them. -/
def renderFields : List (Option String × Json) → String
  | [] => ""
  | [(k, v)] => quote (k.getD "") ++ ":" ++ v.render
  | (k, v) :: fs => quote (k.getD "") ++ ":" ++ v.render ++ "," ++ renderFields fs

end

/-- A text as a value. -/
def text (s : String) : Json := string (some s)

/-- A whole number as a value. -/
def int (n : Int) : Json := number (Numeral.ofInt n).toList

/-- A value with named fields. -/
def record (fields : List (String × Json)) : Json := object (fields.map fun f => (some f.1, f.2))

/-- A value under a tag. -/
def tagged (tag : String) (v : Json) : Json := record [(tag, v)]

end Json

end ArithLine
