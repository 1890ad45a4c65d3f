import ArithLine.Text.Ranges

/-!
# Ignorable characters

Characters that are not shown where they have no effect: property
`Default_Ignorable_Code_Point`, by version 17.0 of the Unicode
character database. Those that are marks
do not come between the parts of a ligature.
-/

namespace ArithLine.Property

/-- The ignorable ranges. -/
def ignorable : Ranges := [
  (0xAD, 0xAD), (0x34F, 0x34F), (0x61C, 0x61C), (0x115F, 0x1160), (0x17B4, 0x17B5),
  (0x180B, 0x180F), (0x200B, 0x200F), (0x202A, 0x202E), (0x2060, 0x206F), (0x3164, 0x3164),
  (0xFE00, 0xFE0F), (0xFEFF, 0xFEFF), (0xFFA0, 0xFFA0), (0xFFF0, 0xFFF8), (0x1BCA0, 0x1BCA3),
  (0x1D173, 0x1D17A), (0xE0000, 0xE0FFF)]

/-- Whether a character is not shown where it has no effect. -/
def isIgnorable (c : Char) : Bool := ignorable.contains c

/-- The ignorable characters that are marks. -/
def ignorableMarks : Ranges := [
  (0x34F, 0x34F), (0x17B4, 0x17B5), (0x180B, 0x180D), (0x180F, 0x180F), (0xFE00, 0xFE0F),
  (0xE0100, 0xE01EF)]

/-- Whether a character is an ignorable mark. -/
def isIgnorableMark (c : Char) : Bool := ignorableMarks.contains c

end ArithLine.Property
