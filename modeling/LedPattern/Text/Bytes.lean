/-!
# Sizes in bytes

Places in a text are given in bytes of its UTF-8 form.
-/

namespace LedPattern.Text

/-- The number of bytes of some characters. -/
def byteCount (cs : List Char) : Nat := cs.foldr (fun c n => c.utf8Size + n) 0

end LedPattern.Text
