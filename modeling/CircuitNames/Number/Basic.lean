namespace CircuitNames

namespace Number

/-- The smallest positive number is one unit; one is `2 ^ unitBits` units. -/
def unitBits : Nat := 1074

/-- A magnitude counted in units has a number of its own when it has at most 53 significant bits and
lies below the overflow bound. -/
def Fits (units : Nat) : Prop :=
  Nat.pow 2 (units.log2 - 52) ∣ units ∧ units.log2 < 2098

instance (units : Nat) : Decidable (Fits units) :=
  inferInstanceAs (Decidable (_ ∧ _))

theorem fits_zero : Fits 0 := by decide

end Number

/-- A number: a sign and a magnitude counted in units, or an infinity. Zero has both signs. -/
inductive Number where
  | finite (negative : Bool) (units : Nat) (fits : Number.Fits units)
  | infinite (negative : Bool)
deriving DecidableEq

namespace Number

/-- Zero without a sign. -/
def zero : Number := .finite false 0 fits_zero

instance : Inhabited Number := ⟨zero⟩

/-- The quotient rounded to the nearest integer, a half to the even neighbour. -/
def roundedQuotient (num den : Nat) : Nat :=
  let quotient := num / den
  let double := 2 * (num % den)
  if double < den then quotient
  else if den < double then quotient + 1
  else if quotient % 2 = 0 then quotient else quotient + 1

/-- The number nearest to `num / den`. Past the largest number this is an infinity, which is where
the rounded magnitude stops fitting. -/
def nearest (negative : Bool) (num den : Nat) : Number :=
  let scaled := num * Nat.pow 2 unitBits
  let step := Nat.pow 2 ((scaled / den).log2 - 52)
  let units := roundedQuotient scaled (den * step) * step
  if fits : Fits units then .finite negative units fits else .infinite negative

/-- The number nearest to `digits * 10 ^ exponent`. The two early answers spare the powers of ten of
values that are beyond every number or below half of the smallest one. -/
def ofDecimal (negative : Bool) (digits : Nat) (exponent : Int) : Number :=
  if digits = 0 then .finite negative 0 fits_zero
  else match exponent with
    | .ofNat up => if 400 < up then .infinite negative else nearest negative (digits * Nat.pow 10 up) 1
    | .negSucc down =>
      if 400 + digits.log2 < down then .finite negative 0 fits_zero
      else nearest negative digits (Nat.pow 10 (down + 1))

/-- The number nearest to a whole number. -/
def ofNat (n : Nat) : Number := ofDecimal false n 0

instance (n : Nat) : OfNat Number n := ⟨ofNat n⟩

def isNegative : Number → Bool
  | .finite negative _ _ | .infinite negative => negative

/-- Whole numbers from zero up, the negative zero included: the numbers that can count something. -/
def isCount : Number → Bool
  | .finite negative units _ => units % Nat.pow 2 unitBits == 0 && (!negative || units == 0)
  | .infinite _ => false

end Number

end CircuitNames
