import LedPattern.Text.Extending
import LedPattern.Text.Unprintable

/-!
# Characters that are not shown as themselves

Quoted text spells a character by its code if it has no shape, or if it would melt into the
character before it.
-/

namespace LedPattern.Text

/-- The two halfwidth sound marks of Katakana. They extend the character before them and yet stand
in a cell of their own, so they can be seen. -/
def isHalfwidthSoundMark (c : Char) : Bool := c.toNat = 0xff9e || c.toNat = 0xff9f

/-- Whether quoted text spells the character by number. Every printable character of ASCII is
shown as itself. -/
def isHidden (c : Char) : Bool :=
  if 0x20 ≤ c.toNat && c.toNat < 0x7f then false
  else isUnprintable c || (isExtending c && !isHalfwidthSoundMark c)

end LedPattern.Text
