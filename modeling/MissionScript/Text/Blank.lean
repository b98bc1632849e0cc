import MissionScript.Text.Basic

/-!
# White space of all scripts

The class holds the five ASCII controls from tab to carriage return, the next-line control and
every space or separator that leaves a visible gap; the zero-width space is not one of them.
-/

namespace MissionScript

namespace Text

def isBlank (c : Char) : Bool :=
  let n := c.toNat
  (0x9 ≤ n && n ≤ 0xd) || n == 0x20 || n == 0x85 || n == 0xa0 || n == 0x1680 ||
    (0x2000 ≤ n && n ≤ 0x200a) || n == 0x2028 || n == 0x2029 || n == 0x202f || n == 0x205f ||
    n == 0x3000

/-- Drops white space at both ends. -/
def trim (t : Text) : Text := ((t.dropWhile isBlank).reverse.dropWhile isBlank).reverse

end Text

end MissionScript
