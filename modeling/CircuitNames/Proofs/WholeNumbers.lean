import CircuitNames.Proofs.NumberTexts
import CircuitNames.Proofs.Roundings

namespace CircuitNames.Number

variable {n : Number} {value other written digits drop width units : Nat} {negative : Bool}

/-- A number that is this whole number. A zero may have either sign. -/
def IsWhole (n : Number) (value : Nat) : Prop :=
  ∃ negative, ∃ fits : Fits (value * 2 ^ unitBits),
    n = .finite negative (value * 2 ^ unitBits) fits ∧ (negative = true → value = 0)

theorem pow_eq (base exponent : Nat) : Nat.pow base exponent = base ^ exponent := rfl

theorem isWhole_of_eq {fits : Fits units} (whole : units = value * 2 ^ unitBits)
    (sign : negative = true → value = 0) :
    (Number.finite negative units fits).IsWhole value := by
  have same (other : Nat) (eq : units = other) : ∃ fits_ : Fits other,
      Number.finite negative units fits = .finite negative other fits_ := by
    subst eq
    exact ⟨fits, rfl⟩
  obtain ⟨fits_, eq⟩ := same _ whole
  exact ⟨negative, fits_, eq, sign⟩

/-- The whole numbers are the numbers that can count something. -/
theorem isCount_iff : n.isCount = true ↔ ∃ value, n.IsWhole value := by
  constructor
  · intro count
    cases n with
    | infinite negative => cases count
    | finite negative units fits =>
      simp only [isCount, pow_eq, Bool.and_eq_true, Bool.or_eq_true, beq_iff_eq, Bool.not_eq_true'] at count
      obtain ⟨whole, sign⟩ := count
      refine ⟨units / 2 ^ unitBits,
        isWhole_of_eq (Nat.div_mul_cancel (Nat.dvd_of_mod_eq_zero whole)).symm fun below => ?_⟩
      rcases sign with above | none_
      · rw [above] at below
        cases below
      · rw [none_, Nat.zero_div]
  · rintro ⟨value, negative, fits, rfl, sign⟩
    simp only [isCount, pow_eq, Nat.mul_mod_left, beq_self_eq_true, Bool.true_and,
      Bool.or_eq_true, beq_iff_eq, Bool.not_eq_true']
    cases negative with
    | false => exact .inl rfl
    | true =>
      right
      rw [sign rfl, Nat.zero_mul]

/-- A whole number that so many significant digits are enough for. -/
def Significant (precision value : Nat) : Prop := ∃ digits zeros, digits < 10 ^ precision ∧
    value = digits * 10 ^ zeros

theorem Significant.mono {precision more : Nat} (within : Significant precision value)
    (le : precision ≤ more) :
    Significant more value := by
  obtain ⟨digits, zeros, few, same⟩ := within
  exact ⟨digits, zeros, few.trans_le (Nat.pow_le_pow_right (by decide) le), same⟩

/-- A power of ten needs one digit only. -/
theorem significant_of_le {precision : Nat} (le : digits ≤ 10 ^ (precision + 1)) (zeros : Nat) :
    Significant (precision + 1) (digits * 10 ^ zeros) := by
  rcases Nat.eq_or_lt_of_le le with rfl | less
  · exact ⟨1, precision + 1 + zeros, Nat.one_lt_pow (Nat.succ_ne_zero _) (by decide),
      by rw [Nat.one_mul, Nat.pow_add _ (precision + 1)]⟩
  · exact ⟨digits, zeros, less, rfl⟩

/-- A whole number that reads as the number, with as few significant digits as any that does. -/
structure IsShortest (n : Number) (written : Nat) : Prop where
  reads : ofDecimal n.isNegative written 0 = n
  fewest : ∀ other precision, ofDecimal n.isNegative other 0 = n → Significant precision other →
    Significant precision written

theorem ofDecimal_whole_iff {fits : Fits units} :
    ofDecimal negative written 0 = .finite negative units fits ↔ rounded written 1 = units := by
  by_cases none_ : written = 0
  · subst none_
    have read : ofDecimal negative 0 0 = .finite negative 0 fits_zero := if_pos rfl
    rw [rounded_small (by decide), Nat.zero_mul, read, Number.finite.injEq, and_iff_right rfl]
  · have read := @ofDecimal_up negative written none_ 0
    rw [Nat.pow_zero, Nat.mul_one] at read
    rw [← Int.natCast_zero, read]
    exact ⟨rounded_of_nearest, nearest_finite fits⟩

/-- A whole number that is a number of its own can be named by its value. -/
theorem isWhole_ofNat (fits : Fits (value * 2 ^ unitBits)) : (ofNat value).IsWhole value :=
  ⟨false, fits, ofDecimal_whole_iff.mpr (rounded_own fits), fun negative => by cases negative⟩

theorem isWhole_two_pow {bits : Nat} (within : bits + unitBits < 2098) :
    (ofNat (2 ^ bits)).IsWhole (2 ^ bits) :=
  isWhole_ofNat (by rw [← Nat.pow_add]; exact fits_two_pow within)

/-- Below `2 ^ 53` a whole number is read from itself alone. -/
theorem isShortest_of_lt (whole : n.IsWhole value) (small : value < 2 ^ 53) : n.IsShortest value := by
  obtain ⟨negative, fits, rfl, -⟩ := whole
  refine ⟨ofDecimal_whole_iff.mpr (rounded_own fits), fun other precision read few => ?_⟩
  have reads := ofDecimal_whole_iff.mp read
  rcases Nat.lt_or_ge other (2 ^ 53) with within | beyond
  · have same := eq_of_reads (fits_of_le (by decide) within.le) reads
    rwa [same] at few
  · exfalso
    have large := rounded_mono beyond
    rw [rounded_small (Nat.le_refl _), reads] at large
    exact absurd (Nat.le_of_mul_le_mul_right large (Nat.two_pow_pos _)) (Nat.not_le.mpr small)

/-- One of the two multiples of a power of ten around a whole number. -/
def Around (value drop digits : Nat) : Prop := digits = value / 10 ^ drop ∨ digits = value / 10 ^ drop + 1

/-- One, counted in units of the finest grid that the search goes over. -/
def fineUnit : Nat := 10 ^ 341 * 2 ^ unitBits

/-- As long as there are no more digits than the whole number has, its neighbours are whole. The nearer one
comes first. -/
theorem neighbours_whole (value drop precision : Nat) :
    ∃ near far, neighbours (value * fineUnit) (precision + drop + 341) precision =
      [⟨near, drop⟩, ⟨far, drop⟩] ∧
      (∀ digits, Around value drop digits ↔ digits = near ∨ digits = far) ∧
      2 * (near * 10 ^ drop - value) ≤ 10 ^ drop ∧ 2 * (value - near * 10 ^ drop) ≤ 10 ^ drop := by
  have positive : 0 < fineUnit := Nat.mul_pos (Nat.pow_pos (by decide)) (Nat.two_pow_pos _)
  have dropped : precision + drop + 341 - precision = drop + 341 := by omega
  have place : ((drop + 341 : Nat) : Int) - 341 = drop := by omega
  have grid : Nat.pow 10 (drop + 341) * Nat.pow 2 unitBits = 10 ^ drop * fineUnit := by
    rw [pow_eq, pow_eq, fineUnit, ← Nat.mul_assoc, ← Nat.pow_add]
  have double : 2 * (value % 10 ^ drop * fineUnit) = 2 * (value % 10 ^ drop) * fineUnit :=
    (Nat.mul_assoc ..).symm
  have below := Nat.div_add_mod value (10 ^ drop)
  have less := Nat.mod_lt value (Nat.pow_pos (by decide) : 0 < 10 ^ drop)
  rw [Nat.mul_comm] at below
  unfold neighbours
  simp only [dropped, place, grid, Nat.mul_div_mul_right _ _ positive, Nat.mul_mod_mul_right, double,
    Nat.mul_lt_mul_right positive, Nat.mul_left_inj positive.ne']
  have next : (value / 10 ^ drop + 1) * 10 ^ drop = value / 10 ^ drop * 10 ^ drop + 10 ^ drop :=
    Nat.succ_mul ..
  split
  · exact ⟨_, _, rfl, fun _ => Iff.rfl, by omega, by omega⟩
  · exact ⟨_, _, rfl, fun _ => Or.comm, by omega, by omega⟩

/-- The least step of a search decides it. -/
theorem find?_flatMap_range {α : Type} {steps : Nat → List α} {accepts : α → Bool}
    {least count : Nat} {found : α} (inside : least < count)
    (atLeast : (steps least).find? accepts = some found)
    (earlier : ∀ step < least, (steps step).find? accepts = none) :
    ((List.range count).flatMap steps).find? accepts = some found := by
  induction count with
  | zero => omega
  | succ count ih =>
    rw [List.range_succ, List.flatMap_append, List.find?_append]
    rcases Nat.lt_succ_iff_lt_or_eq.mp inside with before | rfl
    · rw [ih before, Option.some_or]
    · have none_ : ((List.range least).flatMap steps).find? accepts = none := by
        rw [List.find?_flatMap, List.findSome?_eq_none_iff]
        exact fun step within => earlier step (List.mem_range.mp within)
      rw [none_, Option.none_or, List.flatMap_singleton, atLeast]

/-- Whether a decimal is read as a magnitude. -/
def readsBack (units : Nat) (decimal : Decimal) : Bool :=
  match ofDecimal false decimal.digits decimal.exponent with
  | .finite _ read _ => read == units
  | .infinite _ => false

/-- Digits are read back when rounding takes them to the number. -/
theorem readsBack_iff (fits : Fits units) (some_ : digits ≠ 0) :
    readsBack units ⟨digits, drop⟩ = true ↔ rounded (digits * 10 ^ drop) 1 = units := by
  unfold readsBack
  rw [ofDecimal_up some_]
  constructor
  · intro reads
    split at reads
    · rename_i same
      exact (rounded_of_nearest same).trans (beq_iff_eq.mp reads)
    · cases reads
  · intro same
    rw [nearest_finite fits same]
    exact beq_self_eq_true units

theorem length_toDigits_iff (positive : 0 < value) :
    (Nat.toDigits 10 value).length = width + 1 ↔ 10 ^ width ≤ value ∧ value < 10 ^ (width + 1) := by
  have atMost := @Nat.length_toDigits_le_iff 10 value (width + 1) (by decide) (Nat.succ_pos _)
  cases width with
  | zero =>
    have some_ := @Nat.length_toDigits_pos 10 value
    omega
  | succ width =>
    have fewer := @Nat.length_toDigits_le_iff 10 value (width + 1) (by decide) (Nat.succ_pos _)
    omega

theorem length_toDigits_shift (positive : 0 < value) (zeros : Nat) :
    (Nat.toDigits 10 (value * 10 ^ zeros)).length = (Nat.toDigits 10 value).length + zeros := by
  obtain ⟨width, length⟩ := Nat.exists_eq_add_one.mpr (@Nat.length_toDigits_pos 10 value)
  obtain ⟨lower, upper⟩ := (length_toDigits_iff positive).mp length
  have tens : 0 < 10 ^ zeros := Nat.pow_pos (by decide)
  rw [length, Nat.add_right_comm]
  refine (length_toDigits_iff (Nat.mul_pos positive tens)).mpr ⟨?_, ?_⟩
  · rw [Nat.pow_add]
    exact Nat.mul_le_mul_right _ lower
  · rw [Nat.add_right_comm, Nat.pow_add]
    exact Nat.mul_lt_mul_of_pos_right upper tens

/-- The candidates with one significant digit more than the number of the step. -/
def candidates (value width step : Nat) :
    List Decimal := neighbours (value * fineUnit) (width + 1 + 341) (step + 1)

/-- The search goes over the multiples of ever smaller powers of ten around a whole number. -/
theorem shortest_eq (positive : 0 < value) (length : (Nat.toDigits 10 value).length = width + 1) :
    shortest (value * 2 ^ unitBits) =
      (((List.range 17).flatMap (candidates value width)).find? (readsBack (value * 2 ^ unitBits))).getD
        (exactDecimal (value * 2 ^ unitBits)) := by
  have scaled : value * 2 ^ unitBits * Nat.pow 10 341 = value * fineUnit := by
    rw [pow_eq, fineUnit, Nat.mul_assoc, Nat.mul_comm (2 ^ unitBits)]
  have whole : value * fineUnit / Nat.pow 2 unitBits = value * 10 ^ 341 := by
    rw [pow_eq, fineUnit, ← Nat.mul_assoc, Nat.mul_div_cancel _ (Nat.two_pow_pos _)]
  have shifted := length_toDigits_shift positive 341
  rw [length] at shifted
  unfold shortest
  simp only [scaled, whole, shifted]
  rfl

theorem ne_zero_of_le (reaches : 10 ^ width ≤ digits * 10 ^ drop) : digits ≠ 0 := by
  rintro rfl
  rw [Nat.zero_mul] at reaches
  exact absurd reaches (Nat.not_le.mpr (Nat.pow_pos (by decide)))

section Search
variable (fits : Fits (value * 2 ^ unitBits)) (lower : 10 ^ width ≤ value) (upper : value < 10 ^ (width + 1))
include fits lower upper

omit upper fits in
/-- As long as the power of ten is not above the leading digit, the multiples of it around a whole number do
not lose that digit. -/
theorem le_below (within : drop ≤ width) : 10 ^ width ≤ value / 10 ^ drop * 10 ^ drop := by
  have split : 10 ^ width = 10 ^ (width - drop) * 10 ^ drop := by
    rw [← Nat.pow_add, Nat.sub_add_cancel within]
  rw [split] at lower ⊢
  exact Nat.mul_le_mul_right _ ((Nat.le_div_iff_mul_le (Nat.pow_pos (by decide))).mpr lower)

omit upper fits in
theorem le_around (within : drop ≤ width) (around : Around value drop digits) :
    10 ^ width ≤ digits * 10 ^ drop := by
  have below := le_below lower within
  rcases around with rfl | rfl
  · exact below
  · exact below.trans (Nat.mul_le_mul_right _ (Nat.le_succ _))

omit lower fits in
theorem around_le {step : Nat} (total : step + drop = width) (around : Around value drop digits) :
    digits ≤ 10 ^ (step + 1) := by
  have split : 10 ^ (width + 1) = 10 ^ (step + 1) * 10 ^ drop := by
    rw [← Nat.pow_add, ← total]
    congr 1
    omega
  have less : value / 10 ^ drop < 10 ^ (step + 1) := by
    rw [Nat.div_lt_iff_lt_mul (Nat.pow_pos (by decide)), ← split]
    exact upper
  rcases around with rfl | rfl
  · exact less.le
  · exact less

omit upper in
/-- With seventeen digits, or with all of them, the nearer multiple is read as the number. -/
theorem near_reads {near : Nat} (enough : width - drop = 16 ∧ drop ≤ width ∨ drop = 0)
    (above : 2 * (near * 10 ^ drop - value) ≤ 10 ^ drop)
    (below : 2 * (value - near * 10 ^ drop) ≤ 10 ^ drop) :
    rounded (near * 10 ^ drop) 1 = value * 2 ^ unitBits := by
  have positive : 0 < value := (Nat.pow_pos (by decide)).trans_le lower
  rcases enough with ⟨sixteen, within⟩ | rfl
  · have small : 10 ^ 16 * 10 ^ drop ≤ value := by
      rw [← Nat.pow_add]
      exact (Nat.pow_le_pow_right (by decide) (by omega)).trans lower
    exact rounded_near positive fits (by omega) (by omega)
  · exact rounded_near positive fits (by omega) (by omega)

omit upper in
/-- What one step of the search finds is a multiple around the whole number that is read as it, the whole
number itself before another one. -/
theorem find?_candidates {step : Nat} (total : step + drop = width) :
    (∀ found, (candidates value width step).find? (readsBack (value * 2 ^ unitBits)) = some found →
      ∃ digits, found = ⟨digits, drop⟩ ∧ Around value drop digits ∧
        rounded (digits * 10 ^ drop) 1 = value * 2 ^ unitBits ∧
          (10 ^ drop ∣ value → digits * 10 ^ drop = value)) ∧
    ((candidates value width step).find? (readsBack (value * 2 ^ unitBits)) = none ↔
      ∀ digits, Around value drop digits → rounded (digits * 10 ^ drop) 1 ≠ value * 2 ^ unitBits) := by
  have positive : 0 < 10 ^ drop := Nat.pow_pos (by decide)
  have all : width + 1 + 341 = step + 1 + drop + 341 := by omega
  obtain ⟨near, far, both, around, above, below⟩ := neighbours_whole value drop (step + 1)
  rw [candidates, all, both]
  have reads (digits : Nat) (inside : digits = near ∨ digits = far) :
      readsBack (value * 2 ^ unitBits) ⟨digits, drop⟩ = true ↔
        rounded (digits * 10 ^ drop) 1 = value * 2 ^ unitBits :=
    readsBack_iff fits (ne_zero_of_le (le_around lower (by omega) ((around digits).mpr inside)))
  have ofNear := reads near (.inl rfl)
  have ofFar := reads far (.inr rfl)
  have nearExact (aligned : 10 ^ drop ∣ value) : near * 10 ^ drop = value := by
    rcases (around near).mpr (.inl rfl) with same | next
    · rw [same, Nat.div_mul_cancel aligned]
    · rw [next, Nat.add_mul, Nat.div_mul_cancel aligned] at above
      omega
  constructor
  · intro found choice
    by_cases nearReads : readsBack (value * 2 ^ unitBits) ⟨near, drop⟩ = true
    · rw [List.find?_cons_of_pos nearReads] at choice
      exact ⟨near, (Option.some.inj choice).symm, (around near).mpr (.inl rfl),
        ofNear.mp nearReads, nearExact⟩
    · rw [List.find?_cons_of_neg nearReads] at choice
      obtain rfl := List.mem_singleton.mp (List.mem_of_find?_eq_some choice)
      refine ⟨far, rfl, (around far).mpr (.inr rfl), ofFar.mp (List.find?_some choice), fun aligned => ?_⟩
      rw [ofNear, nearExact aligned] at nearReads
      exact absurd (rounded_own fits) nearReads
  · rw [List.find?_eq_none, List.forall_mem_cons, List.forall_mem_singleton, ofNear, ofFar]
    constructor
    · rintro ⟨notNear, notFar⟩ digits inside
      rcases (around digits).mp inside with rfl | rfl
      · exact notNear
      · exact notFar
    · exact fun none_ => ⟨none_ near ((around near).mpr (.inl rfl)), none_ far ((around far).mpr (.inr rfl))⟩

/-- The shortest decimal is a multiple around the whole number that is read as it, the whole number itself
before another one. No multiple of a larger power of ten around it is read as it. -/
theorem shortest_whole :
    ∃ step drop digits, step + drop = width ∧ shortest (value * 2 ^ unitBits) = ⟨digits, drop⟩ ∧
    Around value drop digits ∧ rounded (digits * 10 ^ drop) 1 = value * 2 ^ unitBits ∧
    (10 ^ drop ∣ value → digits * 10 ^ drop = value) ∧
    ∀ earlier < step, ∀ further other, earlier + further = width → Around value further other →
      rounded (other * 10 ^ further) 1 ≠ value * 2 ^ unitBits := by
  have positive : 0 < value := (Nat.pow_pos (by decide)).trans_le lower
  have search := shortest_eq positive ((length_toDigits_iff positive).mpr ⟨lower, upper⟩)
  have decided : ∃ step, step ≤ min 16 width ∧
      (candidates value width step).find? (readsBack (value * 2 ^ unitBits)) ≠ none := by
    obtain ⟨near, far, -, around, above, below⟩ :=
      neighbours_whole value (width - min 16 width) (min 16 width + 1)
    have total : min 16 width + (width - min 16 width) = width := by omega
    refine ⟨min 16 width, Nat.le_refl _, mt (find?_candidates fits lower total).2.mp fun none_ => ?_⟩
    exact none_ near ((around near).mpr (.inl rfl)) (near_reads fits lower (by omega) above below)
  obtain ⟨within, reads⟩ := Nat.find_spec decided
  have earlier : ∀ step < Nat.find decided,
      (candidates value width step).find? (readsBack (value * 2 ^ unitBits)) = none := by
    intro step before
    by_contra found
    exact Nat.find_min decided before ⟨by omega, found⟩
  generalize Nat.find decided = least at within reads earlier
  obtain ⟨found, atLeast⟩ := Option.ne_none_iff_exists'.mp reads
  have total : least + (width - least) = width := by omega
  obtain ⟨digits, rfl, around, read, own⟩ := (find?_candidates fits lower total).1 found atLeast
  rw [find?_flatMap_range (by omega) atLeast earlier, Option.getD_some] at search
  refine ⟨least, _, digits, total, search, around, read, own,
    fun step before further other total inside => ?_⟩
  exact (find?_candidates fits lower total).2.mp (earlier step before) other inside

omit upper in
/-- A number that is read from a whole number with some significant digits is read from a multiple around it
with as many. -/
theorem reads_around (within : drop ≤ width) (few : Significant (width + 1 - drop) other)
    (reads : rounded other 1 = value * 2 ^ unitBits) :
    ∃ digits, Around value drop digits ∧ rounded (digits * 10 ^ drop) 1 = value * 2 ^ unitBits := by
  have own := rounded_own fits
  have below : value / 10 ^ drop * 10 ^ drop ≤ value := Nat.div_mul_le_self _ _
  have above : value ≤ (value / 10 ^ drop + 1) * 10 ^ drop :=
    (Nat.lt_mul_of_div_lt (Nat.lt_succ_self _) (Nat.pow_pos (by decide))).le
  -- Nothing with so few digits lies between the two multiples.
  have beside : other ≤ value / 10 ^ drop * 10 ^ drop ∨ (value / 10 ^ drop + 1) * 10 ^ drop ≤ other := by
    obtain ⟨own, zeros, small, rfl⟩ := few
    rcases Nat.lt_or_ge zeros drop with fewer | enough
    · left
      calc own * 10 ^ zeros ≤ 10 ^ (width + 1 - drop) * 10 ^ zeros := Nat.mul_le_mul_right _ small.le
        _ = 10 ^ (width + 1 - drop + zeros) := (Nat.pow_add ..).symm
        _ ≤ 10 ^ width := Nat.pow_le_pow_right (by decide) (by omega)
        _ ≤ value / 10 ^ drop * 10 ^ drop := le_below lower within
    · have multiple : own * 10 ^ zeros = own * 10 ^ (zeros - drop) * 10 ^ drop := by
        rw [Nat.mul_assoc, ← Nat.pow_add, Nat.sub_add_cancel enough]
      rw [multiple]
      rcases Nat.lt_or_ge (value / 10 ^ drop) (own * 10 ^ (zeros - drop)) with more | notMore
      · exact .inr (Nat.mul_le_mul_right _ more)
      · exact .inl (Nat.mul_le_mul_right _ notMore)
  rcases beside with le | ge
  · refine ⟨_, .inl rfl, Nat.le_antisymm ?_ ?_⟩
    · exact (rounded_mono below).trans own.le
    · exact reads.ge.trans (rounded_mono le)
  · refine ⟨_, .inr rfl, Nat.le_antisymm ?_ ?_⟩
    · exact (rounded_mono ge).trans reads.le
    · exact own.ge.trans (rounded_mono above)

omit fits upper in
/-- The digits that a whole number with few significant ones does not need are zeros. -/
theorem dvd_of_significant {step : Nat} (total : step + drop = width) (few : Significant (step + 1) value) :
    10 ^ drop ∣ value := by
  obtain ⟨own, zeros, small, rfl⟩ := few
  suffices enough : drop ≤ zeros from (Nat.pow_dvd_pow 10 enough).mul_left own
  by_contra fewer
  have less : own * 10 ^ zeros < 10 ^ (step + 1) * 10 ^ zeros :=
    Nat.mul_lt_mul_of_pos_right small (Nat.pow_pos (by decide))
  have bounded : 10 ^ (step + 1) * 10 ^ zeros ≤ 10 ^ width := by
    rw [← Nat.pow_add]
    exact Nat.pow_le_pow_right (by decide) (by omega)
  omega

/-- The shortest decimal of a whole number is a whole number of as many digits, or the power of ten above
these. -/
theorem shortest_isShortest (negative : Bool) :
    ∃ digits drop : Nat, shortest (value * 2 ^ unitBits) = ⟨digits, drop⟩ ∧
    10 ^ width ≤ digits * 10 ^ drop ∧ digits * 10 ^ drop ≤ 10 ^ (width + 1) ∧
    (Number.finite negative _ fits).IsShortest (digits * 10 ^ drop) ∧
    (digits * 10 ^ drop = value ↔ (Number.finite negative _ fits).IsShortest value) := by
  obtain ⟨step, drop, digits, total, found, around, reads, own, none_⟩ := shortest_whole fits lower upper
  have few := around_le upper total around
  have shortest_ : (Number.finite negative _ fits).IsShortest (digits * 10 ^ drop) := by
    refine ⟨ofDecimal_whole_iff.mpr reads, fun other precision read within => ?_⟩
    have read := ofDecimal_whole_iff.mp read
    rcases Nat.lt_or_ge step precision with more | notMore
    · exact (significant_of_le few drop).mono more
    · exfalso
      cases precision with
      | zero =>
        obtain ⟨_, _, small, rfl⟩ := within
        obtain rfl := Nat.lt_one_iff.mp small
        rw [Nat.zero_mul, rounded_small (by decide), Nat.zero_mul] at read
        exact (Nat.mul_pos ((Nat.pow_pos (by decide)).trans_le lower) (Nat.two_pow_pos _)).ne read
      | succ earlier =>
        have places : width + 1 - (width - earlier) = earlier + 1 := by omega
        obtain ⟨own, around, reads⟩ :=
          reads_around fits lower (Nat.sub_le width earlier) (places.symm ▸ within) read
        exact none_ earlier notMore _ own (by omega) around reads
  have bounded : digits * 10 ^ drop ≤ 10 ^ (width + 1) := by
    calc digits * 10 ^ drop ≤ 10 ^ (step + 1) * 10 ^ drop := Nat.mul_le_mul_right _ few
      _ = 10 ^ (width + 1) := by rw [← Nat.pow_add, Nat.add_right_comm, total]
  refine ⟨digits, drop, found, le_around lower (by omega) around, bounded, shortest_,
    fun same => ?_, fun own_ => ?_⟩
  · rwa [same] at shortest_
  · exact own (dvd_of_significant lower total (own_.fewest _ _ shortest_.reads (significant_of_le few drop)))

end Search

end CircuitNames.Number
