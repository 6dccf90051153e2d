import OutlinePage.Text.Basic

/-!
# White space

The white space of Unicode, and the texts left when it is taken off the ends.
-/

namespace OutlinePage.Text

/-- White space in the sense of Unicode, together with the four ASCII separators `1C`–`1F`. The
zero-width space `200B` and the byte order mark `FEFF` do not count. -/
def isBlank (c : Char) : Bool :=
  let n := c.toNat
  (0x09 ≤ n && n ≤ 0x0D) || (0x1C ≤ n && n ≤ 0x20) || n == 0x85 || n == 0xA0 || n == 0x1680 ||
    (0x2000 ≤ n && n ≤ 0x200A) || n == 0x2028 || n == 0x2029 || n == 0x202F || n == 0x205F ||
    n == 0x3000

/-- The text without the leading code points that satisfy `p`. -/
def trimStart (p : Char → Bool) (t : Text) : Text := t.dropWhile p

/-- The text without the trailing code points that satisfy `p`. -/
def trimEnd (p : Char → Bool) (t : Text) : Text := (t.reverse.dropWhile p).reverse

/-- The text without white space at its ends. -/
def strip (t : Text) : Text := trimEnd isBlank (trimStart isBlank t)

/-- Is there nothing but white space? -/
def isBlankText (t : Text) : Bool := t.all isBlank

end OutlinePage.Text
