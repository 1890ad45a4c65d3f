import ArithLine.Text.Visible

/-!
# Quoted text

Text between double quotes, on one line, with nothing in it that does not show:
quotes and backslashes are escaped by a backslash, the common controls have
letters of their own, and every other invisible character is given by its code
point in hexadecimal between braces.
-/

namespace ArithLine.Quoted

/-- A character as it stands between quotes. -/
def escape (c : Char) : List Char :=
  match c with
  | '"' => ['\\', '"']
  | '\\' => ['\\', '\\']
  | '\n' => ['\\', 'n']
  | '\r' => ['\\', 'r']
  | '\t' => ['\\', 't']
  | '\x00' => ['\\', '0']
  | c => if isVisible c then [c] else '\\' :: 'u' :: '\x7b' :: (Nat.toDigits 16 c.toNat ++ ['\x7d'])

/-- Some characters between quotes. -/
def encode (cs : List Char) : List Char := '"' :: (cs.flatMap escape ++ ['"'])

end ArithLine.Quoted

namespace ArithLine

/-- A text between quotes. -/
def quoted (s : String) : String := .ofList (Quoted.encode s.toList)

end ArithLine
