import CircuitNames.Circuit.Basic
import CircuitNames.Number.Decimal

namespace CircuitNames

namespace Expr

/-- The unsigned literal of an integer of any size, in decimal digits. -/
def uintOfInt (value : Int) (width : Option Number) : Expr := uintLit (toString value) width

/-- The unsigned literal of a number, spelled as the number is written: from `1e+21` on that is no
longer a row of digits. -/
def uintOfNumber (value : Number) (width : Option Number) : Expr := uintLit value.text width

end Expr

end CircuitNames
