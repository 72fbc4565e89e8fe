import CircuitNames.Proofs.DecimalValues

namespace CircuitNames.Number

variable {num den other value quotient scaled units : Nat}

theorem roundedQuotient_le : roundedQuotient num den ≤ num / den + 1 := by
  unfold roundedQuotient
  dsimp only
  split
  · exact Nat.le_succ _
  · split
    · exact Nat.le_refl _
    · split
      · exact Nat.le_succ _
      · exact Nat.le_refl _

/-- Rounding whole numbers keeps their order. -/
theorem roundedQuotient_mono (le : num ≤ other) : roundedQuotient num den ≤ roundedQuotient other den := by
  rcases Nat.lt_or_ge (num / den) (other / den) with less | notLess
  · exact roundedQuotient_le.trans (less.trans_le roundedQuotient_ge)
  · have same : num / den = other / den := Nat.le_antisymm (Nat.div_le_div_right le) notLess
    have remainders : num % den ≤ other % den := by
      have ofNum := Nat.div_add_mod num den
      have ofOther := Nat.div_add_mod other den
      rw [same] at ofNum
      omega
    unfold roundedQuotient
    rw [same]
    dsimp only
    split_ifs <;> omega

/-- What is closer than half a step is rounded away. -/
theorem roundedQuotient_near (above : 2 * (num - quotient * den) < den)
    (below : 2 * (quotient * den - num) < den) :
    roundedQuotient num den = quotient := by
  have positive : 0 < den := by omega
  rcases Nat.le_total (quotient * den) num with up | down
  · obtain ⟨atDiv, atMod⟩ : num / den = quotient ∧ num % den = num - quotient * den :=
      (Nat.div_mod_unique positive).mpr ⟨by rw [Nat.mul_comm den]; omega, by omega⟩
    simp only [roundedQuotient, atDiv, atMod, if_pos above]
  · rcases Nat.eq_or_lt_of_le down with rfl | short
    · exact roundedQuotient_exact positive
    · -- The quotient is the one below, and more than half a step is left over.
      obtain ⟨previous, rfl⟩ : ∃ previous, quotient = previous + 1 :=
        Nat.exists_eq_add_one.mpr (Nat.pos_of_mul_pos_right (Nat.zero_lt_of_lt short))
      rw [Nat.succ_mul previous] at below short
      obtain ⟨atDiv, atMod⟩ : num / den = previous ∧ num % den = num - previous * den :=
        (Nat.div_mod_unique positive).mpr ⟨by rw [Nat.mul_comm den]; omega, by omega⟩
      simp only [roundedQuotient, atDiv, atMod]
      rw [if_neg (by omega), if_pos (by omega)]

theorem roundedUnits_le_two_pow : roundedUnits scaled ≤ 2 ^ (scaled.log2 + 1) := by
  have split : 2 ^ (scaled.log2 + 1) = 2 ^ (scaled.log2 + 1 - (scaled.log2 - 52)) *
      2 ^ (scaled.log2 - 52) := by
    rw [← Nat.pow_add]
    congr 1
    omega
  have quotient : scaled / 2 ^ (scaled.log2 - 52) < 2 ^ (scaled.log2 + 1 - (scaled.log2 - 52)) := by
    rw [Nat.div_lt_iff_lt_mul (Nat.two_pow_pos _), ← split]
    exact Nat.lt_log2_self
  calc roundedUnits scaled ≤ (scaled / 2 ^ (scaled.log2 - 52) + 1) * 2 ^ (scaled.log2 - 52) :=
        Nat.mul_le_mul_right _ roundedQuotient_le
    _ ≤ 2 ^ (scaled.log2 + 1 - (scaled.log2 - 52)) * 2 ^ (scaled.log2 - 52) := Nat.mul_le_mul_right _ quotient
    _ = 2 ^ (scaled.log2 + 1) := split.symm

theorem roundedUnits_mono (le : scaled ≤ units) : roundedUnits scaled ≤ roundedUnits units := by
  by_cases none_ : scaled = 0
  · subst none_
    exact Nat.zero_le _
  · have some_ : units ≠ 0 := by omega
    have logs : scaled.log2 ≤ units.log2 := (Nat.le_log2 some_).mpr ((Nat.log2_self_le none_).trans le)
    rcases Nat.eq_or_lt_of_le logs with same | less
    · rw [roundedUnits, roundedUnits, same]
      exact Nat.mul_le_mul_right _ (roundedQuotient_mono le)
    · calc roundedUnits scaled ≤ 2 ^ (scaled.log2 + 1) := roundedUnits_le_two_pow
        _ ≤ 2 ^ units.log2 := Nat.pow_le_pow_right (by decide) less
        _ ≤ roundedUnits units := two_pow_le_roundedUnits some_

theorem rounded_mono (le : num ≤ other) : rounded num 1 ≤ rounded other 1 := by
  rw [rounded_whole, rounded_whole]
  exact roundedUnits_mono (Nat.mul_le_mul_right _ le)

/-- A number that is close enough to another one with 53 bits is taken to it. -/
theorem roundedUnits_eq {bits : Nat} (lower : 2 ^ 52 * 2 ^ bits ≤ scaled) (upper : scaled < 2 ^ 53 * 2 ^ bits)
    (above : 2 * (scaled - quotient * 2 ^ bits) < 2 ^ bits)
    (below : 2 * (quotient * 2 ^ bits - scaled) < 2 ^ bits) :
    roundedUnits scaled = quotient * 2 ^ bits := by
  have some_ : scaled ≠ 0 := by omega
  have magnitude : scaled.log2 = 52 + bits :=
    (Nat.log2_eq_iff some_).mpr ⟨by rwa [Nat.pow_add], by rwa [Nat.add_right_comm, Nat.pow_add]⟩
  rw [roundedUnits, magnitude, Nat.add_sub_cancel_left, roundedQuotient_near above below]

/-- What differs by so little from units with 53 significant bits is rounded to them. -/
theorem roundedUnits_near {bits : Nat} (magnitude : units.log2 = bits + 53) (aligned : 2 ^ (bits + 1) ∣ units)
    (above : 2 * 10 ^ 16 * (scaled - units) ≤ units) (below : 2 * 10 ^ 16 * (units - scaled) ≤ units) :
    roundedUnits scaled = units := by
  have some_ : units ≠ 0 := by
    rintro rfl
    rw [Nat.log2_zero] at magnitude
    omega
  obtain ⟨lower, upper⟩ := (Nat.log2_eq_iff some_).mp magnitude
  obtain ⟨quotient, rfl⟩ := aligned
  have positive := Nat.two_pow_pos bits
  have atLower : 2 ^ (bits + 53) = 2 ^ 53 * 2 ^ bits := by rw [Nat.pow_add, Nat.mul_comm]
  have atUpper : 2 ^ (bits + 53 + 1) = 2 ^ 54 * 2 ^ bits := by rw [Nat.add_assoc, Nat.pow_add, Nat.mul_comm]
  have step : 2 ^ (bits + 1) = 2 * 2 ^ bits := Nat.pow_succ'
  have halved : 2 ^ (bits + 1) * quotient = 2 * quotient * 2 ^ bits := by rw [step, Nat.mul_right_comm]
  rw [halved] at lower upper above below ⊢
  rw [atLower] at lower
  rw [atUpper] at upper
  have most : quotient < 2 ^ 53 := by
    by_contra many
    have product : 2 ^ 54 * 2 ^ bits ≤ 2 * quotient * 2 ^ bits := Nat.mul_le_mul_right _ (by omega)
    omega
  rcases Nat.lt_or_ge scaled (2 ^ 53 * 2 ^ bits) with fewer | enough
  · -- Below a power of two the numbers are twice as close, and so are the two.
    have product : ¬ 2 ^ 53 < 2 * quotient := by
      intro more
      have further : (2 ^ 53 + 2) * 2 ^ bits ≤ 2 * quotient * 2 ^ bits := Nat.mul_le_mul_right _ (by omega)
      omega
    have exact_ : 2 * quotient * 2 ^ bits ≤ 2 ^ 53 * 2 ^ bits := Nat.mul_le_mul_right _ (by omega)
    exact roundedUnits_eq (by omega) fewer (by omega) (by omega)
  · have room : (2 * quotient + 2) * 2 ^ bits ≤ 2 ^ 54 * 2 ^ bits := Nat.mul_le_mul_right _ (by omega)
    have regrouped : 2 * quotient * 2 ^ bits = quotient * 2 ^ (bits + 1) := by
      rw [step, Nat.mul_left_comm, Nat.mul_assoc]
    rw [Nat.add_mul, regrouped] at room
    rw [regrouped] at above below ⊢
    exact roundedUnits_eq (by omega) (by omega) (by omega) (by omega)

theorem fits_two_pow {bits : Nat} (within : bits < 2098) : Fits (2 ^ bits) := by
  rw [Fits, Nat.log2_two_pow]
  exact ⟨Nat.pow_dvd_pow 2 (Nat.sub_le _ _), within⟩

theorem fits_of_le {bits : Nat} (within : bits ≤ 2044) (small : value ≤ 2 ^ 53) :
    Fits (value * 2 ^ bits) := by
  rcases Nat.eq_or_lt_of_le small with rfl | less
  · rw [← Nat.pow_add]
    exact fits_two_pow (by omega)
  · by_cases none_ : value * 2 ^ bits = 0
    · rw [none_]
      exact fits_zero
    · have bounded : value * 2 ^ bits < 2 ^ (53 + bits) := by
        rw [Nat.pow_add]
        exact Nat.mul_lt_mul_of_pos_right less (Nat.two_pow_pos _)
      have magnitude := (Nat.log2_lt none_).mpr bounded
      exact ⟨(Nat.pow_dvd_pow 2 (by omega)).mul_left value, by omega⟩

/-- Those that have at most 53 bits are left alone. -/
theorem rounded_own (fits : Fits (value * 2 ^ unitBits)) : rounded value 1 = value * 2 ^ unitBits :=
  rounded_exact Nat.one_pos fits (Nat.mul_one _).symm

/-- A whole number that is a number of its own is read as no other one. -/
theorem eq_of_reads (fits : Fits (other * 2 ^ unitBits)) (reads : rounded other 1 = value * 2 ^ unitBits) :
    other = value :=
  Nat.eq_of_mul_eq_mul_right (Nat.two_pow_pos _) ((rounded_own fits).symm.trans reads)

/-- Up to `2 ^ 53` every whole number is a number of its own. -/
theorem rounded_small (small : value ≤ 2 ^ 53) : rounded value 1 = value * 2 ^ unitBits :=
  rounded_own (fits_of_le (by decide) small)

/-- A whole number that differs from a number by less than one part in `2 * 10 ^ 16` is rounded to it. -/
theorem rounded_near (positive : 0 < value) (fits : Fits (value * 2 ^ unitBits))
    (above : 2 * 10 ^ 16 * (other - value) ≤ value) (below : 2 * 10 ^ 16 * (value - other) ≤ value) :
    rounded other 1 = value * 2 ^ unitBits := by
  have large : 2 ^ unitBits ≤ value * 2 ^ unitBits := Nat.le_mul_of_pos_left _ positive
  have some_ : value * 2 ^ unitBits ≠ 0 := by
    have := Nat.two_pow_pos unitBits
    omega
  have units : unitBits = 1074 := rfl
  obtain ⟨bits, magnitude⟩ : ∃ bits, (value * 2 ^ unitBits).log2 = bits + 53 :=
    Nat.exists_eq_add_of_le' (by have := (Nat.le_log2 some_).mpr large; omega)
  have aligned : 2 ^ (bits + 1) ∣ value * 2 ^ unitBits := by
    have own := fits.1
    rwa [magnitude] at own
  rw [rounded_whole]
  refine roundedUnits_near magnitude aligned ?_ ?_
  · rw [← Nat.sub_mul, ← Nat.mul_assoc]
    exact Nat.mul_le_mul_right _ above
  · rw [← Nat.sub_mul, ← Nat.mul_assoc]
    exact Nat.mul_le_mul_right _ below

end CircuitNames.Number
