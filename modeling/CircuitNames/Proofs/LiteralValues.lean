import CircuitNames.Circuit.Literal
import CircuitNames.Proofs.AcceptedExpressions
import CircuitNames.Proofs.InterchangeForms
import CircuitNames.Proofs.SpelledExpressions
import CircuitNames.Proofs.WholeNumbers

namespace CircuitNames

namespace Number

variable {n : Number} {value digits : Nat}

/-- A row of decimal digits and the whole number that it spells. -/
structure Numeral (text : List Char) (value : Nat) : Prop where
  nonempty : text ≠ []
  areDigits : ∀ c ∈ text, c.isDigit = true
  spells : Nat.ofDigitChars 10 text 0 = value

theorem numeral_toDigits (value : Nat) : Numeral (Nat.toDigits 10 value) value where
  nonempty := Nat.toDigits_ne_nil
  areDigits _ := Nat.isDigit_of_mem_toDigits (by decide) (by decide)
  spells := Nat.ofDigitChars_ten_toDigits

/-- A whole decimal is laid out as a row of digits up to 21 of them, and with an exponent from there on. -/
theorem Decimal.chars_whole (some_ : digits ≠ 0) (drop : Nat) :
    (digits * 10 ^ drop < 10 ^ 21 → Numeral (⟨digits, drop⟩ : Decimal).chars (digits * 10 ^ drop)) ∧
    (10 ^ 21 ≤ digits * 10 ^ drop → 'e' ∈ (⟨digits, drop⟩ : Decimal).chars) := by
  have positive := Nat.pos_of_ne_zero some_
  obtain ⟨own, zeros, stripped, leads, length, same⟩ := significant positive
  have total := length_toDigits_shift positive drop
  have bound := @Nat.length_toDigits_le_iff 10 (digits * 10 ^ drop) 21 (by decide) (by decide)
  have chars_ : (⟨digits, drop⟩ : Decimal).chars = layout own ((own.length + zeros : Nat) + drop) := by
    simp only [Decimal.chars, stripped, length]
  rw [chars_]
  unfold layout
  dsimp only
  constructor
  · intro small
    have places : ((own.length + zeros : Nat) + (drop : Int)).toNat - own.length = zeros + drop := by omega
    rw [if_pos (by omega), places]
    refine ⟨?_, List.forall_mem_append.mpr ⟨leads.areDigits, Json.Reader.areDigits_zeros _⟩, ?_⟩
    · obtain ⟨c, more, rfl, -⟩ := leads.cons
      exact List.cons_ne_nil _ _
    · rw [ofDigitChars_trailing, Nat.pow_add, ← Nat.mul_assoc, same]
  · intro large
    rw [if_neg (by omega), if_neg (by omega), if_neg (by omega)]
    exact List.mem_append_right _ List.mem_cons_self

/-- The first number that is written with an exponent is represented exactly. -/
theorem fits_bound (bound : value = 10 ^ 21) : Fits (value * 2 ^ unitBits) := by
  subst bound
  decide +kernel

/-- Below `10 ^ 21` the text of a whole number spells the shortest whole number that is read as it, which is
the number itself just when no whole number with fewer significant digits is. From there on the text has an
exponent. -/
theorem chars_whole (whole : n.IsWhole value) :
    (value < 10 ^ 21 → ∃ written, Numeral n.chars written ∧ n.IsShortest written ∧
      (written = value ↔ n.IsShortest value)) ∧
    (10 ^ 21 ≤ value → 'e' ∈ n.chars) := by
  obtain ⟨negative, fits, rfl, sign⟩ := whole
  by_cases none_ : value = 0
  · subst none_
    have zero : (Number.finite negative _ fits).chars = ['0'] := by
      unfold chars
      dsimp only
      rw [if_pos (Nat.zero_mul _)]
    have own := isShortest_of_lt ⟨negative, fits, rfl, sign⟩ (by decide)
    rw [zero]
    exact ⟨fun _ => ⟨0, numeral_toDigits 0, own, iff_of_true rfl own⟩, fun large => absurd large (by decide)⟩
  · obtain rfl : negative = false := Bool.eq_false_iff.mpr (mt sign none_)
    have positive := Nat.pos_of_ne_zero none_
    obtain ⟨width, length⟩ := Nat.exists_eq_add_one.mpr (@Nat.length_toDigits_pos 10 value)
    obtain ⟨lower, upper⟩ := (length_toDigits_iff positive).mp length
    obtain ⟨digits, drop, found, atLeast, atMost, shortest_, exact_⟩ :=
      shortest_isShortest fits lower upper false
    have text : (Number.finite false _ fits).chars = (⟨digits, drop⟩ : Decimal).chars := by
      unfold chars
      dsimp only
      rw [if_neg (Nat.mul_pos positive (Nat.two_pow_pos _)).ne', if_neg Bool.false_ne_true, found]
    obtain ⟨plain, exponent⟩ := Decimal.chars_whole (ne_zero_of_le atLeast) drop
    rw [text]
    refine ⟨fun small => ⟨_, plain ?_, shortest_, exact_⟩, fun large => exponent ?_⟩
    · have within : 10 ^ (width + 1) ≤ 10 ^ 21 :=
        Nat.pow_le_pow_right (by decide) ((Nat.pow_lt_pow_iff_right (by decide)).mp (lower.trans_lt small))
      refine Nat.lt_of_le_of_ne (atMost.trans within) fun same => ?_
      -- The bound is a number of its own, so that nothing else is read from it.
      have own := eq_of_reads (fits_bound same) (ofDecimal_whole_iff.mp shortest_.reads)
      exact small.ne (own.symm.trans same)
    · have reaches : 10 ^ 21 ≤ 10 ^ width :=
        Nat.pow_le_pow_right (by decide) <|
          Nat.le_of_lt_succ ((Nat.pow_lt_pow_iff_right (by decide)).mp (large.trans_lt upper))
      exact reaches.trans atLeast

end Number

namespace Expr
open Number (Numeral)

variable {n : Number} {value : Nat} {text : String} {width : Option Number}

/-- What is written of the expression is read as it again, under every label. -/
def Accepted (expr : Expr) : Prop := ∀ label, Decode.expr label (some expr.toJson) = .ok expr

/-- An unsigned literal whose text is a row of decimal digits that spells the value. -/
def Denotes : Expr → Nat → Prop
  | uintLit text _, value => Numeral text.toList value
  | _, _ => False

/-- A row of digits is the text of an integer, and the literal with this text can be read. -/
theorem isInteger_of_numeral (numeral : Numeral text.toList value) : Decode.isInteger text = true := by
  obtain ⟨nonempty, areDigits, -⟩ := numeral
  unfold Decode.isInteger
  split
  · rename_i sign
    have isDigit := areDigits '-' (sign ▸ List.mem_cons_self)
    cases isDigit
  · rw [List.all_eq_true.mpr areDigits, Bool.and_true, Bool.not_eq_true', List.isEmpty_eq_false_iff]
    exact nonempty

section Sized
variable (sized : ∀ count ∈ width, ∃ size, count.IsWhole size)
include sized

theorem accepted_of_denotes (denotes : (uintLit text width).Denotes value) :
    (uintLit text width).Accepted := by
  have counts : ∀ count ∈ width, count.Counts fun _ => True := fun count inside =>
    ⟨Number.isCount_iff.mpr (sized count inside), trivial⟩
  have formed : (uintLit text width).Formed fun _ => True := ⟨isInteger_of_numeral denotes, counts⟩
  have keyed : (uintLit text width).toJson.Keyed :=
    (toJson_regular formed).imp (fun _ apart => apart.1) fun _ _ => trivial
  have readable : (uintLit text width).Readable := ⟨List.forall_mem_nil _, formed⟩
  intro label
  exact (Decode.expr_reads (uintLit text width) label _ fun _ same => Option.some.inj same ▸ keyed).mpr
    ⟨readable, Json.Abridged.refl _⟩

end Sized

theorem literalValue_refused (isInteger : Decode.isInteger text = false) (some_ : text ≠ "")
    (label : String) :
    Decode.literalValue label (some (.string text)) = .error ⟨label, .notInteger text⟩ := by
  simp [Decode.literalValue, Json.asText, some_, isInteger, bind, Except.bind]

/-- A literal whose text is not an integer is refused at its value, whatever its width. -/
theorem refused_of_not_integer (isInteger : Decode.isInteger text = false) (some_ : text ≠ "")
    (label : String) :
    Decode.expr label (some (uintLit text width).toJson) = .error ⟨s!"{label}.value", .notInteger text⟩ := by
  obtain ⟨fields, shape, others⟩ : ∃ fields,
      (uintLit text width).toJson =
        .object (("kind", .string "uint_lit") :: ("value", .string text) :: fields) ∧
        ∀ key ∈ fields.map Prod.fst, key = "width" := by
    cases width with
    | none => exact ⟨[], rfl, List.forall_mem_nil _⟩
    | some count => exact ⟨[("width", .number count)], rfl, List.forall_mem_singleton.mpr rfl⟩
  rw [shape, Decode.expr]
  generalize all : ("kind", Json.string "uint_lit") :: ("value", Json.string text) :: fields = given
  have atKind : (⟨label, given⟩ : Json.Record).read Json.asText "kind" = .ok "uint_lit" := all ▸ rfl
  have known : (⟨label, given⟩ : Json.Record).allowOnly ["kind", "value", "width"] = .ok () := by
    refine Json.Record.allowOnly_eq_ok.mpr ?_
    simp only [← all, List.map_cons, List.forall_mem_cons]
    exact ⟨by decide, by decide, fun key inside => by rw [others key inside]; decide⟩
  have atValue : (⟨label, given⟩ : Json.Record).read Decode.literalValue "value" =
      .error ⟨s!"{label}.value", .notInteger text⟩ := by
    have found : (⟨label, given⟩ : Json.Record).get? "value" = some (.string text) := all ▸ rfl
    have place : (⟨label, given⟩ : Json.Record).labelOf "value" = s!"{label}.value" := String.append_assoc ..
    rw [Json.Record.read, found, place, literalValue_refused isInteger some_]
  simp only [atKind, known, atValue, bind, Except.bind]

/-- A literal built from an integer of any size denotes it and can be read. A literal built from a whole
number can be read just when the number is below `10 ^ 21`. It denotes the shortest whole number that is read
as the number then. This is the number itself below `2 ^ 53`, and beyond it as long as no whole number with
fewer significant digits is read as the number. -/
theorem uint_denotes (sized : ∀ count ∈ width, ∃ size, count.IsWhole size) :
    (∀ value : Nat, (uintOfInt value width).Accepted ∧ (uintOfInt value width).Denotes value) ∧
    ∀ (n : Number) (value : Nat), n.IsWhole value →
      (value < 10 ^ 21 → (uintOfNumber n width).Accepted ∧
        ∃ written, (uintOfNumber n width).Denotes written ∧ n.IsShortest written ∧
          (written = value ↔ n.IsShortest value)) ∧
      (value < 2 ^ 53 → (uintOfNumber n width).Denotes value) ∧
      (10 ^ 21 ≤ value → ∀ label, Decode.expr label (some (uintOfNumber n width).toJson) =
        .error ⟨s!"{label}.value", .notInteger n.text⟩) := by
  constructor
  · intro value
    have denotes : (uintOfInt value width).Denotes value := by
      have spelled : (toString (value : Int)).toList = Nat.toDigits 10 value := Nat.toList_repr
      rw [uintOfInt, Denotes, spelled]
      exact Number.numeral_toDigits value
    exact ⟨accepted_of_denotes sized denotes, denotes⟩
  · intro n value whole
    obtain ⟨plain, exponent⟩ := Number.chars_whole whole
    have text_ : n.text.toList = n.chars := String.toList_ofList
    rw [← text_] at plain exponent
    refine ⟨fun small => ?_, fun small => ?_, fun large label => ?_⟩
    · obtain ⟨written, denotes, shortest, own⟩ := plain small
      exact ⟨accepted_of_denotes sized denotes, written, denotes, shortest, own⟩
    · obtain ⟨written, denotes, -, own⟩ := plain (small.trans (by decide))
      rw [own.mpr (Number.isShortest_of_lt whole small)] at denotes
      exact denotes
    · refine refused_of_not_integer ?_ ?_ label
      · rw [Bool.eq_false_iff]
        intro isInteger
        exact absurd (mem_of_isInteger isInteger 'e' (exponent large)) (by decide)
      · intro none_
        rw [none_] at exponent
        cases exponent large

/-- An integer of 101 bits and a byte are denoted. The number `2 ^ 69` is spelled by a whole number that is
read as it, and `10 ^ 21` is spelled by none. -/
theorem uint_sample_denotes :
    (∀ count ∈ some (8 : Number), ∃ size, count.IsWhole size) ∧
    (uintOfInt (2 ^ 100 : Nat) (some 8)).Accepted ∧ (uintOfInt (2 ^ 100 : Nat) (some 8)).Denotes (2 ^ 100) ∧
    (uintOfNumber 255 (some 8)).Denotes 255 ∧
    (∃ written, (uintOfNumber (.ofNat (2 ^ 69)) (some 8)).Denotes written ∧
      (Number.ofNat (2 ^ 69)).IsShortest written) ∧
    ∀ label, Decode.expr label (some (uintOfNumber (.ofNat (10 ^ 21)) (some 8)).toJson) =
      .error ⟨s!"{label}.value", .notInteger (Number.ofNat (10 ^ 21)).text⟩ := by
  have small {value : Nat} (small : value ≤ 2 ^ 53) : (Number.ofNat value).IsWhole value :=
    Number.isWhole_ofNat (Number.fits_of_le (by decide) small)
  have sized : ∀ count ∈ some (8 : Number), ∃ size, count.IsWhole size := fun count inside =>
    ⟨8, Option.some.inj inside ▸ small (by decide)⟩
  obtain ⟨ofInt, ofNumber⟩ := uint_denotes sized
  obtain ⟨-, written, denotes, shortest, -⟩ :=
    (ofNumber _ _ (Number.isWhole_two_pow (by decide))).1 (by decide : 2 ^ 69 < 10 ^ 21)
  exact ⟨sized, (ofInt _).1, (ofInt _).2, (ofNumber _ _ (small (by decide))).2.1 (by decide),
    ⟨written, denotes, shortest⟩,
    (ofNumber _ _ (Number.isWhole_ofNat (Number.fits_bound rfl))).2.2 (Nat.le_refl _)⟩

/-- From `10 ^ 21` on the literal of a number cannot be read, and before that it may denote another number:
the last digits of `2 ^ 69` are replaced by zeros. -/
theorem uintOfNumber_loses_value :
    ∃ large rounded : Number, large.IsWhole (10 ^ 21) ∧ rounded.IsWhole (2 ^ 69) ∧
    large.text = "1e+21" ∧ ¬ (uintOfNumber large none).Accepted ∧
    rounded.text = "590295810358705700000" ∧ ¬ (uintOfNumber rounded none).Denotes (2 ^ 69) := by
  have exponent : (Number.ofNat (10 ^ 21)).text = "1e+21" := by decide +kernel
  have zeros : (Number.ofNat (2 ^ 69)).text = "590295810358705700000" := by decide +kernel
  refine ⟨_, _, Number.isWhole_ofNat (Number.fits_bound rfl), Number.isWhole_two_pow (by decide),
    exponent, ?_, zeros, ?_⟩
  · intro accepted
    have read := accepted ""
    rw [uintOfNumber, exponent, refused_of_not_integer (by decide) (by decide)] at read
    cases read
  · intro denotes
    rw [uintOfNumber, zeros] at denotes
    exact absurd denotes.spells (by decide)

end Expr

end CircuitNames
