import CircuitNames.Number.Basic

namespace CircuitNames

namespace Number

/-- A decimal magnitude `digits * 10 ^ exponent`. -/
structure Decimal where
  digits : Nat
  exponent : Int
deriving DecidableEq

/-- The value of a magnitude in units, exactly. -/
def exactDecimal (units : Nat) : Decimal :=
  ⟨units * Nat.pow 5 unitBits, -unitBits⟩

/-- The candidates with `precision` digits for a magnitude, given as `scaled / 2 ^ unitBits` on the
grid `10 ^ (-341)`: its two neighbours on the coarser grid with that many digits, the nearer one
first, the even one of two that are equally near. -/
def neighbours (scaled width precision : Nat) : List Decimal :=
  let drop := width - precision
  let grid := Nat.pow 10 drop * Nat.pow 2 unitBits
  let below := scaled / grid
  let exponent : Int := drop - 341
  let pair := [⟨below, exponent⟩, ⟨below + 1, exponent⟩]
  let double := 2 * (scaled % grid)
  if double < grid ∨ (double = grid ∧ below % 2 = 0) then pair else pair.reverse

/-- The decimal with the fewest digits that reads back as the magnitude, and of those the nearest to
it. Seventeen digits are always enough, so the exact value is never reached. -/
def shortest (units : Nat) : Decimal :=
  let scaled := units * Nat.pow 10 341
  let width := (Nat.toDigits 10 (scaled / Nat.pow 2 unitBits)).length
  let readsBack (d : Decimal) : Bool :=
    match ofDecimal false d.digits d.exponent with
    | .finite _ read _ => read == units
    | .infinite _ => false
  let candidates := (List.range 17).flatMap fun n => neighbours scaled width (n + 1)
  (candidates.find? readsBack).getD (exactDecimal units)

/-- Lays out significant digits whose decimal point stands `point` places after their start. -/
def layout (digits : List Char) (point : Int) : List Char :=
  let count := digits.length
  if count ≤ point ∧ point ≤ 21 then
    digits ++ List.replicate (point.toNat - count) '0'
  else if 0 < point ∧ point ≤ 21 then
    digits.take point.toNat ++ '.' :: digits.drop point.toNat
  else if -6 < point ∧ point ≤ 0 then
    '0' :: '.' :: List.replicate (-point).toNat '0' ++ digits
  else
    let power := point - 1
    let sign := if power < 0 then '-' else '+'
    let mantissa := match digits with
      | lead :: rest@(_ :: _) => lead :: '.' :: rest
      | short => short
    mantissa ++ 'e' :: sign :: Nat.toDigits 10 power.natAbs

/-- The text of a positive magnitude: trailing zeros of the digits only move the point. -/
def Decimal.chars (d : Decimal) : List Char :=
  let all := Nat.toDigits 10 d.digits
  let significant := (all.reverse.dropWhile (· == '0')).reverse
  layout significant (all.length + d.exponent)

/-- The text of a number; zero is written without its sign. -/
def chars : Number → List Char
  | .finite negative units _ =>
    if units = 0 then ['0']
    else if negative then '-' :: (shortest units).chars
    else (shortest units).chars
  | .infinite false => "Infinity".toList
  | .infinite true => "-Infinity".toList

/-- The decimal text of a number. Its digits are the fewest that read back as the same number. -/
def text (n : Number) : String := String.ofList n.chars

end Number

end CircuitNames
