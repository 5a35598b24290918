import ThreeAddress.Text.Utf8

namespace ThreeAddress

def isBlank (c : Char) : Bool :=
  let n := c.toNat
  (0x09 ≤ n && n ≤ 0x0D) || n == 0x20 || n == 0x85 || n == 0xA0 || n == 0x1680 ||
    (0x2000 ≤ n && n ≤ 0x200A) || n == 0x2028 || n == 0x2029 || n == 0x202F || n == 0x205F ||
    n == 0x3000

/-- The text without the blanks at its two ends. Bytes that are no character are kept. -/
def trimBlanks (text : Bytes) : Bytes :=
  let inner := (units text).dropWhile fun u => isBlank u.char
  ((inner.reverse.dropWhile fun u => isBlank u.char).reverse).flatMap TextUnit.bytes

end ThreeAddress
