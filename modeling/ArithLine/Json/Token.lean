import ArithLine.Json.Basic

/-!
# JSON tokens

A JSON text is cut into marks, strings and other scalars by one pass over its
characters. `Scan` is what the pass remembers between two characters.
-/

namespace ArithLine.Json

/-- A token of a JSON text. -/
inductive Token where
  /-- A bracket, a colon or a comma. -/
  | mark (c : Char)
  | string (s : Option String)
  /-- A null, a truth value or a number. -/
  | scalar (v : Json)
  deriving Repr, Inhabited

/-- Whether a character may stand between tokens without being one. -/
def isBlank (c : Char) : Bool := c == ' ' || c == '\t' || c == '\n' || c == '\r'

/-- Whether a character is a token by itself. -/
def isMark (c : Char) : Bool := ['\x7b', '\x7d', '[', ']', ':', ','].contains c

/-- Whether a character may stand in a scalar other than a string. -/
def isBare (c : Char) : Bool := c.isAlphanum || c == '-' || c == '+' || c == '.'

/-- Whether some characters are an exponent, or nothing. -/
def isExponent : List Char → Bool
  | [] => true
  | e :: r =>
    (e == 'e' || e == 'E') &&
      match r with
      | '+' :: ds | '-' :: ds => Word.isNumeral ds
      | ds => Word.isNumeral ds

/-- Whether some characters are a fraction and an exponent, either of which may
be missing. -/
def isFraction : List Char → Bool
  | '.' :: r => Word.isNumeral (r.takeWhile Char.isDigit) && isExponent (r.dropWhile Char.isDigit)
  | r => isExponent r

/-- Whether some characters are digits without a needless zero in front. -/
def isPlain (ds : List Char) : Bool := Word.isNumeral ds && (ds.head? != some '0' || ds == ['0'])

/-- Whether some characters spell a number. -/
def isNumber (cs : List Char) : Bool :=
  let r := if cs.head? == some '-' then cs.tail else cs
  isPlain (r.takeWhile Char.isDigit) && isFraction (r.dropWhile Char.isDigit)

/-- The scalar that some characters spell. -/
def scalar? (cs : List Char) : Option Json :=
  if cs = "null".toList then some null
  else if cs = "true".toList then some (bool true)
  else if cs = "false".toList then some (bool false)
  else if isNumber cs then some (number cs)
  else none

/-- The value of a digit of base sixteen. -/
def hexValue? (c : Char) : Option Nat :=
  if c.isDigit then some (c.toNat - '0'.toNat)
  else if 'a' ≤ c ∧ c ≤ 'f' then some (c.toNat - 'a'.toNat + 10)
  else if 'A' ≤ c ∧ c ≤ 'F' then some (c.toNat - 'A'.toNat + 10)
  else none

/-- The characters of some code points, in which an escaped pair of surrogates
stands for one character. A surrogate without its partner is no character. -/
def join : List Nat → Option (List Char)
  | [] => some []
  | n :: rest =>
    if 0xD800 ≤ n ∧ n < 0xE000 then
      match rest with
      | m :: rest' =>
        if n < 0xDC00 ∧ 0xDC00 ≤ m ∧ m < 0xE000 then
          (join rest').map (Char.ofNat (0x10000 + (n - 0xD800) * 0x400 + (m - 0xDC00)) :: ·)
        else none
      | [] => none
    else (join rest).map (Char.ofNat n :: ·)

/-- The code point that a letter after a backslash stands for. -/
def escaped? (c : Char) : Option Nat :=
  match c with
  | '"' | '\\' | '/' => some c.toNat
  | 'b' => some 0x08
  | 'f' => some 0x0C
  | 'n' => some 0x0A
  | 'r' => some 0x0D
  | 't' => some 0x09
  | _ => none

/-- Where in a token a pass over a text stands. What has been read of the token
is kept last character first. -/
inductive Scan where
  | between
  | bare (read : List Char)
  | quoted (read : List Nat)
  | escape (read : List Nat)
  /-- Some digits of an escaped code point are still to come. -/
  | hex (read : List Nat) (missing value : Nat)
  deriving Repr, Inhabited

/-- The tokens read so far, the last one first, and the place in the next. -/
structure Pass where
  tokens : List Token := []
  scan : Scan := .between
  deriving Repr, Inhabited

namespace Pass

/-- Takes in a character between two tokens. -/
def stepBetween (ts : List Token) (c : Char) : Option Pass :=
  if isBlank c then some ⟨ts, .between⟩
  else if isMark c then some ⟨.mark c :: ts, .between⟩
  else if c = '"' then some ⟨ts, .quoted []⟩
  else if isBare c then some ⟨ts, .bare [c]⟩
  else none

/-- Takes in a character. -/
def step (p : Pass) (c : Char) : Option Pass :=
  match p.scan with
  | .between => stepBetween p.tokens c
  | .bare cs =>
    if isBare c then some { p with scan := .bare (c :: cs) }
    else (scalar? cs.reverse).bind fun v => stepBetween (.scalar v :: p.tokens) c
  | .quoted us =>
    if c = '"' then some ⟨.string ((join us.reverse).map String.ofList) :: p.tokens, .between⟩
    else if c = '\\' then some { p with scan := .escape us }
    else if c.toNat < 0x20 then none
    else some { p with scan := .quoted (c.toNat :: us) }
  | .escape us =>
    if c = 'u' then some { p with scan := .hex us 3 0 }
    else (escaped? c).map fun n => { p with scan := .quoted (n :: us) }
  | .hex us k v =>
    (hexValue? c).map fun d =>
      match k with
      | 0 => { p with scan := .quoted ((16 * v + d) :: us) }
      | k + 1 => { p with scan := .hex us k (16 * v + d) }

/-- The tokens of a text that ends here. -/
def finish? (p : Pass) : Option (List Token) :=
  match p.scan with
  | .between => some p.tokens.reverse
  | .bare cs => (scalar? cs.reverse).map fun v => (.scalar v :: p.tokens).reverse
  | _ => none

end Pass

/-- The tokens of a text. -/
def Token.ofText? (cs : List Char) : Option (List Token) :=
  (cs.foldlM Pass.step {}).bind Pass.finish?

end ArithLine.Json
