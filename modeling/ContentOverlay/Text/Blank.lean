/-!
# Blank text

A base version must say something: a text made of white space alone counts as empty.  White space
is the Unicode property `White_Space`, whose members are listed here.
-/

set_option autoImplicit false

namespace ContentOverlay
namespace Blank

/-- The characters with the Unicode property `White_Space`. -/
def isBlank (c : Char) : Bool :=
  let n := c.toNat
  (9 ≤ n && n ≤ 13) || n == 0x20 || n == 0x85 || n == 0xA0 || n == 0x1680 ||
    (0x2000 ≤ n && n ≤ 0x200A) || n == 0x2028 || n == 0x2029 || n == 0x202F || n == 0x205F ||
    n == 0x3000

/-- A text without a visible character. -/
def isBlankText (s : String) : Bool := s.toList.all isBlank

end Blank
end ContentOverlay
