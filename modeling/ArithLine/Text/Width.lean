import ArithLine.Text.Property.Emoji
import ArithLine.Text.Property.Extender
import ArithLine.Text.Property.Ignorable
import ArithLine.Text.Property.Joining
import ArithLine.Text.Property.Wide

/-!
# Width

How many columns a text takes on a terminal. Most characters have a width of their
own: none for those that extend another or may be ignored, two for wide ones, one
for the rest. In a text, what stands after a character may change its width: parts
of an emoji, of a flag or of a ligature share their columns. So a text is measured
from its end, and `Following` is what the measure remembers.
-/

namespace ArithLine.Width

/-- What stands after a character, as far as it can change widths before it.
`joined` tells that a joiner stands in front of it. -/
inductive Shape where
  | plain
  /-- An emoji modifier. -/
  | modifier
  /-- One flag letter. -/
  | flagLetter
  /-- Two or more flag letters. -/
  | flagLetters
  | emoji
  | joinedEmoji
  /-- A keycap before the joiner of an emoji sequence. -/
  | joinedKeycap
  /-- Flag letters before the joiner of an emoji sequence: one, or more of them. -/
  | joinedFlagLetter
  | joinedFlagEven
  | joinedFlagOdd
  /-- The end of a tagged flag before the joiner of an emoji sequence, and some
  letters or digits before that. -/
  | tagLetters (n : Nat)
  | tagDigits (n : Nat)
  | kiratRaiE
  | kiratRaiAi
  | alef
  | hebrewLamed (joined : Bool)
  | bugineseYa (joined : Bool)
  | bugineseIYa
  | tifinagh (joined : Bool)
  | tifinaghJoiner
  | lisuTone
  | orkhonI (joined : Bool)
  | khmerLetter
  deriving DecidableEq, Repr, Inhabited

namespace Shape

/-- Whether the shape may end a ligature. -/
def isLigature : Shape → Bool
  | alef | hebrewLamed _ | bugineseYa _ | bugineseIYa | tifinagh _ | tifinaghJoiner | lisuTone
  | orkhonI _ | khmerLetter => true
  | _ => false

/-- Whether ignorable marks and joiners may stand inside the ligature. -/
def isTransparent (s : Shape) : Bool := s.isLigature && s != alef

/-- The shape with a joiner in front of it. -/
def join : Shape → Shape
  | hebrewLamed _ => hebrewLamed true
  | bugineseYa _ => bugineseYa true
  | tifinagh _ => tifinagh true
  | orkhonI _ => orkhonI true
  | s => s

/-- Whether the shape belongs to a joined emoji that a selector may continue. -/
def isJoinedEmoji (s : Shape) : Bool := s == joinedEmoji || s == joinedKeycap

end Shape

/-- What stands after a character, and the selectors between them. -/
structure Following where
  shape : Shape := .plain
  /-- A selector of the emoji form. -/
  emojiForm : Bool := false
  /-- A selector of the text form. -/
  textForm : Bool := false
  /-- A selector of the wide form. -/
  wideForm : Bool := false
  deriving DecidableEq, Repr, Inhabited

namespace Following

/-- What follows, behind a selector of the emoji form. -/
def selectEmoji (f : Following) : Following :=
  if f.shape.isLigature || f.shape.isJoinedEmoji then { f with emojiForm := true }
  else { emojiForm := true }

/-- What follows, behind a selector of the text form. -/
def selectText (f : Following) : Following :=
  if f.shape.isLigature then { f with textForm := true } else { textForm := true }

/-- What follows, behind a selector of the wide form. -/
def selectWide (f : Following) : Following :=
  if f.shape.isLigature then { f with wideForm := true } else { wideForm := true }

/-- What follows, where a selector of the emoji form has no effect. -/
def dropEmojiForm (f : Following) : Following :=
  if !f.emojiForm || f.shape.isLigature then { f with emojiForm := false } else {}

end Following

/-! ## Single characters -/

/-- Whether a character is a flag letter. -/
def isFlagLetter (c : Char) : Bool := 0x1F1E6 ≤ c.toNat && c.toNat ≤ 0x1F1FF

/-- Whether a character is an emoji modifier. -/
def isModifier (c : Char) : Bool := 0x1F3FB ≤ c.toNat && c.toNat ≤ 0x1F3FF

/-- Whether a character is a consonant of Tifinagh. -/
def isTifinagh (c : Char) : Bool :=
  0x2D31 ≤ c.toNat && c.toNat ≤ 0x2D65 || c.toNat == 0x2D6F

/-- Whether a letter of Khmer may be written below another. -/
def isKhmerLetter (c : Char) : Bool :=
  Ranges.contains [(0x1780, 0x1782), (0x1784, 0x1787), (0x1789, 0x178C), (0x178E, 0x1793),
    (0x1795, 0x1798), (0x179B, 0x179D), (0x17A0, 0x17A0), (0x17A2, 0x17A2), (0x17A7, 0x17A7),
    (0x17AB, 0x17AC), (0x17AF, 0x17AF)] c

/-- Whether a character is a curly quotation mark. -/
def isCurlyQuote (c : Char) : Bool := ['\u2018', '\u2019', '\u201C', '\u201D'].contains c

/-- Whether a character takes no column: extending and ignorable characters, the
vowels and finals of Hangul syllables, signs that span numbers, and a caret that
stands above a letter. -/
def isZero (c : Char) : Bool :=
  Property.isExtender c || Property.isIgnorable c ||
    Ranges.contains [(0x605, 0x605), (0x70F, 0x70F), (0x890, 0x891), (0x8E2, 0x8E2),
      (0x1160, 0x11FF), (0xA8FA, 0xA8FA), (0xD7B0, 0xD7C6), (0xD7CB, 0xD7FB)] c

/-- The width of a character from U+00A0 on. -/
def ofChar (c : Char) : Nat :=
  match c.toNat with
  | 0x115F | 0x17A4 => 2
  | 0x17D8 => 3
  | 0x2D7F => 1
  | _ => if isZero c then 0 else if Property.isWide c then 2 else 1

/-- The width of a character by itself; a control has none. -/
def alone (c : Char) : Nat :=
  if c.toNat < 0x20 || 0x7F ≤ c.toNat && c.toNat < 0xA0 then 0
  else if c.toNat < 0x7F then 1
  else ofChar c

/-- What a character is to those before it. -/
def shapeOf (c : Char) : Shape :=
  if Property.isAlef c then .alef
  else if isKhmerLetter c then .khmerLetter
  else if isTifinagh c then .tifinagh false
  else if isFlagLetter c then .flagLetter
  else if isModifier c then .modifier
  else if Property.isEmoji c then .emoji
  else
    match c with
    | '\u05DC' => .hebrewLamed false
    | '\u1A10' => .bugineseYa false
    | '\uA4FC' | '\uA4FD' => .lisuTone
    | c =>
      match c.toNat with
      | 0x10C03 => .orkhonI false
      | 0x16D67 => .kiratRaiE
      | 0x16D68 => .kiratRaiAi
      | _ => .plain

/-! ## Texts -/

/-- The width that a character adds to a shape after it, and the shape of both, where
they share columns. -/
def combine (c : Char) (s : Shape) : Option (Int × Shape) :=
  let n := c.toNat
  let isJoiner := n == 0x200D
  match s with
  | .plain | .joinedKeycap => none
  | .alef =>
    if Property.isLam c then some (0, .plain)
    else if ofChar c == 0 && !Property.isBreaking c then some (0, .alef)
    else none
  | .hebrewLamed joined => if joined && n == 0x05D0 then some (0, .plain) else none
  | .khmerLetter => if n == 0x17D2 then some (-1, .plain) else none
  | .bugineseYa joined => if joined && n == 0x1A17 then some (0, .bugineseIYa) else none
  | .bugineseIYa => if n == 0x1A15 then some (0, .plain) else none
  | .tifinagh joined =>
    if n == 0x2D7F then some (1, .tifinaghJoiner)
    else if joined && isTifinagh c then some (0, .plain)
    else none
  | .tifinaghJoiner => if isTifinagh c then some (-1, .plain) else none
  | .lisuTone => if 0xA4F8 ≤ n && n ≤ 0xA4FB then some (0, .plain) else none
  | .orkhonI joined => if joined && n == 0x10C32 then some (0, .plain) else none
  | .modifier =>
    if Property.isModifiable c then some (0, .emoji)
    else if isJoiner then some (0, .joinedEmoji)
    else none
  | .flagLetter => if isFlagLetter c then some (1, .flagLetters) else none
  | .flagLetters =>
    if isFlagLetter c then some (1, .flagLetters)
    else if isJoiner then some (0, .joinedEmoji)
    else none
  | .emoji => if isJoiner then some (0, .joinedEmoji) else none
  | .joinedEmoji =>
    if n == 0x20E3 then some (0, .joinedKeycap)
    else if isFlagLetter c then some (1, .joinedFlagLetter)
    else if isModifier c then some (0, .modifier)
    else if n == 0xE007F then some (0, .tagLetters 0)
    else if Property.isEmoji c then some (0, .emoji)
    else none
  | .joinedFlagLetter => if isFlagLetter c then some (-1, .joinedFlagEven) else none
  | .joinedFlagOdd =>
    if isFlagLetter c then some (-1, .joinedFlagEven)
    else if isJoiner then some (0, .joinedEmoji)
    else none
  | .joinedFlagEven =>
    if isFlagLetter c then some (3, .joinedFlagOdd)
    else if isJoiner then some (0, .joinedEmoji)
    else none
  | .tagLetters k =>
    if 0xE0061 ≤ n && n ≤ 0xE007A && k < 6 then some (0, .tagLetters (k + 1))
    else if 0xE0030 ≤ n && n ≤ 0xE0039 && k ≤ 4 then some (0, .tagDigits 1)
    else if n == 0x1F3F4 && 3 ≤ k then some (0, .emoji)
    else none
  | .tagDigits k =>
    if 0xE0030 ≤ n && n ≤ 0xE0039 && k < 3 then some (0, .tagDigits (k + 1))
    else if n == 0x1F3F4 && k == 3 then some (0, .emoji)
    else none
  | .kiratRaiE =>
    match n with
    | 0x16D63 | 0x16D69 => some (0, .plain)
    | 0x16D67 => some (0, .kiratRaiAi)
    | 0x16D68 => some (1, .kiratRaiE)
    | _ => none
  | .kiratRaiAi => if n == 0x16D63 then some (0, .plain) else none

/-- The width that a character adds in front of what follows it, and what follows the
character before it. -/
def step (c : Char) (f : Following) : Int × Following :=
  if f.emojiForm && Property.hasEmojiForm c then
    (if f.shape.isJoinedEmoji then 0 else 2, { shape := .emoji })
  else if c.toNat ≤ 0xA0 then (1, {})
  else
    let f := f.dropEmojiForm
    if c = '\uFE0F' then (0, f.selectEmoji)
    else if c = '\uFE0E' then (0, f.selectText)
    else if c = '\uFE01' then (0, f.selectWide)
    else if f.textForm && Property.hasTextForm c then (1, {})
    else if f.wideForm && isCurlyQuote c then (2, {})
    else
      let f := { f with textForm := false, wideForm := false }
      if f.shape.isTransparent && c = '\u200D' then (0, { f with shape := f.shape.join })
      else if f.shape.isTransparent && Property.isIgnorableMark c then (0, f)
      else
        match combine c f.shape with
        | some (w, s) => (w, { shape := s })
        | none => (ofChar c, { shape := shapeOf c })

/-- The width of some characters and what they are to those before them. -/
def measure : List Char → Int × Following
  | [] => (0, {})
  | c :: cs =>
    let (w, f) := measure cs
    let (v, g) := step c f
    (v + w, g)

/-- The number of columns that a text takes. A control takes one. -/
def ofText (cs : List Char) : Nat := (measure cs).1.toNat

end ArithLine.Width
