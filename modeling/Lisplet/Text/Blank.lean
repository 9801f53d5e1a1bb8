/-!
Blank characters.

`isWhite` is the Unicode property `White_Space`; `isBlank` adds the comma, which the language reads as a blank.
-/
namespace Lisplet

/-- The Unicode property `White_Space`: 25 code points. -/
def isWhite (c : Char) : Bool :=
  let n := c.toNat
  (9 ≤ n && n ≤ 13) || n == 0x20 || n == 0x85 || n == 0xA0 || n == 0x1680 || (0x2000 ≤ n && n ≤ 0x200A) ||
    n == 0x2028 || n == 0x2029 || n == 0x202F || n == 0x205F || n == 0x3000

/-- Characters that separate forms and mean nothing else. -/
def isBlank (c : Char) : Bool :=
  isWhite c || c == ','

end Lisplet
