import ArithLine.Text.Property.Extender
import ArithLine.Text.Property.Hidden
import ArithLine.Text.Property.Ignorable

/-!
# Visible characters

A character is visible if it shows as itself wherever it stands. Characters without
a shape do not, nor do those that may be ignored, nor marks that combine with the
character before them.
-/

namespace ArithLine

/-- Whether a character is a halfwidth voicing mark. These two extend the character
before them and still have a place of their own. -/
def isVoicingMark (c : Char) : Bool := c == '\uFF9E' || c == '\uFF9F'

/-- Whether a character shows as itself. -/
def isVisible (c : Char) : Bool :=
  if c.toNat < 0x7F then 0x20 ≤ c.toNat
  else !Property.isHidden c && !Property.isIgnorable c &&
    (!Property.isExtender c || isVoicingMark c)

end ArithLine
