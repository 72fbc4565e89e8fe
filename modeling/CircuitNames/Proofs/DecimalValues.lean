import CircuitNames.Number.Decimal
import Mathlib.Algebra.Order.Ring.Nat
import Mathlib.Tactic.Ring

namespace CircuitNames.Number

variable {negative : Bool} {num den digits units : Nat}

theorem roundedQuotient_scale {factor : Nat} (positive : 0 < factor) :
    roundedQuotient (num * factor) (den * factor) = roundedQuotient num den := by
  have double : 2 * (num % den * factor) = 2 * (num % den) * factor := by ring
  simp only [roundedQuotient, Nat.mul_div_mul_right _ _ positive, Nat.mul_mod_mul_right, double,
    Nat.mul_lt_mul_right positive]

theorem roundedQuotient_ge : num / den ≤ roundedQuotient num den := by
  unfold roundedQuotient
  dsimp only
  split
  · exact Nat.le_refl _
  · split
    · exact Nat.le_succ _
    · split
      · exact Nat.le_refl _
      · exact Nat.le_succ _

theorem roundedQuotient_exact (positive : 0 < den) : roundedQuotient (num * den) den = num := by
  simp [roundedQuotient, Nat.mul_div_cancel _ positive, positive]

/-- How far apart the numbers are at a fraction, in units. -/
def spacing (num den : Nat) : Nat := 2 ^ ((num * 2 ^ unitBits / den).log2 - 52)

/-- The units of a fraction once it is rounded. -/
def rounded (num den : Nat) :
    Nat := roundedQuotient (num * 2 ^ unitBits) (den * spacing num den) * spacing num den

theorem nearest_eq (negative : Bool) (num den : Nat) : nearest negative num den =
    if fits : Fits (rounded num den) then .finite negative (rounded num den) fits
    else .infinite negative := by
  simp only [nearest, rounded, spacing, Nat.pow_eq]
  rfl

/-- Reading a decimal sees nothing but its value: a common factor of numerator and denominator cancels. -/
theorem rounded_scale {factor : Nat} (positive : 0 < factor) :
    rounded (num * factor) (den * factor) = rounded num den := by
  have scaled : num * factor * 2 ^ unitBits = num * 2 ^ unitBits * factor := Nat.mul_right_comm ..
  have same : spacing (num * factor) (den * factor) = spacing num den := by
    rw [spacing, scaled, Nat.mul_div_mul_right _ _ positive, spacing]
  rw [rounded, same, scaled, Nat.mul_right_comm den, roundedQuotient_scale positive, rounded]

/-- Units rounded to 53 significant bits. -/
def roundedUnits (scaled : Nat) :
    Nat := roundedQuotient scaled (2 ^ (scaled.log2 - 52)) * 2 ^ (scaled.log2 - 52)

theorem rounded_whole : rounded num 1 = roundedUnits (num * 2 ^ unitBits) := by
  rw [rounded, spacing, Nat.div_one, Nat.one_mul, roundedUnits]

/-- The spacing takes away all but 53 bits, so that the leading one stays in the quotient. -/
theorem two_pow_le_roundedUnits {scaled : Nat} (nonzero : scaled ≠ 0) :
    2 ^ scaled.log2 ≤ roundedUnits scaled := by
  calc 2 ^ scaled.log2 = 2 ^ scaled.log2 / 2 ^ (scaled.log2 - 52) * 2 ^ (scaled.log2 - 52) :=
        (Nat.div_mul_cancel (Nat.pow_dvd_pow 2 (Nat.sub_le _ _))).symm
    _ ≤ scaled / 2 ^ (scaled.log2 - 52) * 2 ^ (scaled.log2 - 52) :=
      Nat.mul_le_mul_right _ (Nat.div_le_div_right (Nat.log2_self_le nonzero))
    _ ≤ roundedUnits scaled := Nat.mul_le_mul_right _ roundedQuotient_ge

/-- From the overflow bound on no magnitude is left. -/
theorem rounded_overflow {bits : Nat} (overflows : 2098 ≤ bits) (large : 2 ^ bits ≤ num * 2 ^ unitBits) :
    ¬ Fits (rounded num 1) := by
  intro fits
  have bounded := fits.2
  rw [rounded_whole] at bounded
  generalize num * 2 ^ unitBits = scaled at large bounded
  have nonzero : scaled ≠ 0 := Nat.pos_iff_ne_zero.mp (Nat.lt_of_lt_of_le (Nat.two_pow_pos _) large)
  have magnitude : bits ≤ scaled.log2 := (Nat.le_log2 nonzero).mpr large
  have kept := two_pow_le_roundedUnits nonzero
  have positive := Nat.lt_of_lt_of_le (Nat.two_pow_pos _) kept
  have tooLarge := (Nat.le_log2 (Nat.pos_iff_ne_zero.mp positive)).mpr kept
  omega

/-- What is below half a unit is rounded to zero. -/
theorem rounded_underflow (small : 2 * (num * 2 ^ unitBits) < den) : rounded num den = 0 := by
  have below : num * 2 ^ unitBits < den := by omega
  have quotient := Nat.div_eq_of_lt below
  have step : spacing num den = 1 := by rw [spacing, quotient, Nat.log2_zero, Nat.zero_sub, Nat.pow_zero]
  rw [rounded, step, Nat.mul_one, Nat.mul_one]
  simp only [roundedQuotient, quotient, Nat.mod_eq_of_lt below, if_pos small]

/-- A whole number of units that fits is not rounded. -/
theorem rounded_exact (positive : 0 < den) (fits : Fits units) (value : num * 2 ^ unitBits = units * den) :
    rounded num den = units := by
  have step : spacing num den = 2 ^ (units.log2 - 52) := by rw [spacing, value, Nat.mul_div_cancel _ positive]
  have aligned : units / 2 ^ (units.log2 - 52) * 2 ^ (units.log2 - 52) = units := Nat.div_mul_cancel fits.1
  have regrouped : units * den = units / 2 ^ (units.log2 - 52) * (den * 2 ^ (units.log2 - 52)) := by
    rw [Nat.mul_left_comm, aligned, Nat.mul_comm]
  rw [rounded, step, value, regrouped,
    roundedQuotient_exact (Nat.mul_pos positive (Nat.two_pow_pos _)), aligned]

theorem nearest_scale {factor : Nat} (positive : 0 < factor) :
    nearest negative (num * factor) (den * factor) = nearest negative num den := by
  simp only [nearest_eq, rounded_scale positive]

/-- Whole numbers far beyond the largest finite one are read as infinite. -/
theorem nearest_overflow {bits : Nat} (overflows : 2098 ≤ bits) (large : 2 ^ bits ≤ num * 2 ^ unitBits) :
    nearest negative num 1 = .infinite negative :=
  (nearest_eq ..).trans (dif_neg (rounded_overflow overflows large))

theorem nearest_finite (fits : Fits units) (units_ : rounded num den = units) :
    nearest negative num den = .finite negative units fits := by
  subst units_
  exact (nearest_eq ..).trans (dif_pos fits)

theorem rounded_of_nearest {sign given : Bool} {fits : Fits units}
    (same : nearest sign num den = .finite given units fits) :
    rounded num den = units := by
  rw [nearest_eq] at same
  split at same
  · exact (Number.finite.inj same).2
  · cases same

theorem two_pow_le_ten_pow (power : Nat) : 2 ^ (3 * power) ≤ 10 ^ power := by
  rw [Nat.pow_mul]
  exact Nat.pow_le_pow_left (by decide) power

/-- A whole number is read as the number nearest to it, the early answer included. -/
theorem ofDecimal_up (some_ : digits ≠ 0) (up : Nat) :
    ofDecimal negative digits up = nearest negative (digits * 10 ^ up) 1 := by
  unfold ofDecimal
  rw [if_neg some_]
  change (if 400 < up then Number.infinite negative else nearest negative (digits * 10 ^ up) 1) = _
  split
  · rename_i far
    have units : unitBits = 1074 := rfl
    refine (nearest_overflow (by omega : 2098 ≤ 3 * up + unitBits) ?_).symm
    calc 2 ^ (3 * up + unitBits) = 2 ^ (3 * up) * 2 ^ unitBits := Nat.pow_add ..
      _ ≤ digits * 10 ^ up * 2 ^ unitBits :=
        Nat.mul_le_mul_right _ <|
          (two_pow_le_ten_pow up).trans (Nat.le_mul_of_pos_left _ (Nat.pos_of_ne_zero some_))
  · rfl

theorem ofDecimal_down (some_ : digits ≠ 0) (down : Nat) :
    ofDecimal negative digits (-down) = nearest negative digits (10 ^ down) := by
  cases down with
  | zero => simpa using ofDecimal_up some_ 0
  | succ down =>
    unfold ofDecimal
    rw [if_neg some_]
    change (if 400 + digits.log2 < down then Number.finite negative 0 fits_zero
      else nearest negative digits (10 ^ (down + 1))) = _
    split
    · rename_i far
      refine (nearest_finite fits_zero (rounded_underflow ?_)).symm
      have units : unitBits = 1074 := rfl
      have scaled : digits * 2 ^ unitBits < 2 ^ (digits.log2 + 1) * 2 ^ unitBits :=
        Nat.mul_lt_mul_of_pos_right Nat.lt_log2_self (Nat.two_pow_pos _)
      calc 2 * (digits * 2 ^ unitBits) < 2 * (2 ^ (digits.log2 + 1) * 2 ^ unitBits) := by omega
        _ = 2 ^ (digits.log2 + 1 + unitBits + 1) := by ring
        _ ≤ 2 ^ (3 * (down + 1)) := Nat.pow_le_pow_right (by decide) (by omega)
        _ ≤ 10 ^ (down + 1) := two_pow_le_ten_pow _
    · rfl

/-- Zeros at the end of the digits count like the exponent. -/
theorem ofDecimal_shift (digits shift : Nat) (exponent : Int) :
    ofDecimal negative (digits * 10 ^ shift) exponent = ofDecimal negative digits (exponent + shift) := by
  have tens : 0 < 10 ^ shift := Nat.pow_pos (by decide)
  by_cases none_ : digits = 0
  · simp [ofDecimal, none_]
  · have some_ : digits * 10 ^ shift ≠ 0 := Nat.mul_ne_zero none_ tens.ne'
    obtain ⟨up, rfl | rfl⟩ := exponent.eq_nat_or_neg
    · rw [ofDecimal_up some_, ← Int.natCast_add, ofDecimal_up none_, Nat.mul_assoc,
        ← Nat.pow_add, Nat.add_comm]
    · rcases Nat.le_total up shift with within | beyond
      · obtain ⟨rest, rfl⟩ := Nat.exists_eq_add_of_le within
        have total : (-up : Int) + (up + rest : Nat) = rest := by omega
        have split : digits * 10 ^ (up + rest) = digits * 10 ^ rest * 10 ^ up := by ring
        rw [total, ofDecimal_down some_, ofDecimal_up none_, split]
        have scaled : nearest negative (digits * 10 ^ rest * 10 ^ up) (1 * 10 ^ up) =
            nearest negative (digits * 10 ^ rest) 1 :=
          nearest_scale (Nat.pow_pos (by decide))
        rwa [Nat.one_mul] at scaled
      · obtain ⟨rest, rfl⟩ := Nat.exists_eq_add_of_le beyond
        have total : (-(shift + rest : Nat) : Int) + shift = -rest := by omega
        rw [total, ofDecimal_down some_, ofDecimal_down none_, Nat.add_comm, Nat.pow_add, nearest_scale tens]

/-- The exact decimal of a finite number is read back as that number. -/
theorem ofDecimal_exactDecimal (fits : Fits units) :
    ofDecimal negative (exactDecimal units).digits (exactDecimal units).exponent =
      .finite negative units fits := by
  by_cases none_ : units = 0
  · subst none_
    simp [ofDecimal, exactDecimal]
  · have some_ : units * 5 ^ unitBits ≠ 0 := Nat.mul_ne_zero none_ (Nat.pow_pos (by decide)).ne'
    rw [exactDecimal, Nat.pow_eq, ofDecimal_down some_]
    refine nearest_finite fits (rounded_exact (Nat.pow_pos (by decide)) fits ?_)
    rw [Nat.mul_assoc, ← Nat.mul_pow]

/-- The sign is read apart from the magnitude. -/
theorem ofDecimal_finite {sign given : Bool} {fits : Fits units} {exponent : Int}
    (reads : ofDecimal sign digits exponent = .finite given units fits) (negative : Bool) :
    ofDecimal negative digits exponent = .finite negative units fits := by
  have nearest_ {num den : Nat} (reads : nearest sign num den = .finite given units fits) :
      nearest negative num den = .finite negative units fits := nearest_finite fits (rounded_of_nearest reads)
  by_cases none_ : digits = 0
  · obtain rfl : 0 = units := by
      simp only [ofDecimal, none_, if_pos] at reads
      exact (Number.finite.inj reads).2
    simp [ofDecimal, none_]
  · obtain ⟨power, rfl | rfl⟩ := exponent.eq_nat_or_neg
    · rw [ofDecimal_up none_] at reads ⊢
      exact nearest_ reads
    · rw [ofDecimal_down none_] at reads ⊢
      exact nearest_ reads

end CircuitNames.Number
