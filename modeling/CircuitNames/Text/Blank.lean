namespace CircuitNames

namespace Blank

/-- Blank characters: spaces of every width, line breaks and the byte order mark. -/
def isBlank (c : Char) : Bool :=
  let code := c.toNat
  (9 ≤ code && code ≤ 13) || code == 0x20 || code == 0xA0 || code == 0x1680 ||
    (0x2000 ≤ code && code ≤ 0x200A) || code == 0x2028 || code == 0x2029 || code == 0x202F ||
    code == 0x205F || code == 0x3000 || code == 0xFEFF

end Blank

/-- The text without the blanks at its end. -/
def trimmedEnd (text : String) : String :=
  String.ofList (text.toList.reverse.dropWhile Blank.isBlank).reverse

end CircuitNames
