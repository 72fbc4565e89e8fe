import CircuitNames.Json.Printer
import CircuitNames.Json.Reader
import CircuitNames.Proofs.DecimalValues
import CircuitNames.Proofs.RegularJson
import Mathlib.Data.List.DropRight

namespace CircuitNames

namespace Number

/-- Significant digits: there are some, and the first one is not zero. -/
structure Leads (digits : List Char) : Prop where
  areDigits : ∀ c ∈ digits, c.isDigit = true
  first : ∃ c ∈ digits.head?, c ≠ '0'

theorem Leads.cons {digits : List Char} (leads : Leads digits) :
    ∃ c more, digits = c :: more ∧ c.isDigit = true ∧ c ≠ '0' := by
  obtain ⟨areDigits, c, isFirst, nonzero⟩ := leads
  cases digits with
  | nil => cases isFirst
  | cons d more =>
    obtain rfl := Option.some.inj isFirst
    exact ⟨d, more, rfl, areDigits d List.mem_cons_self, nonzero⟩

theorem toDigits_leads {n : Nat} (positive : 0 < n) : Leads (Nat.toDigits 10 n) where
  areDigits _ := Nat.isDigit_of_mem_toDigits (by decide) (by decide)
  first := by
    induction n using Nat.strong_induction_on with
    | _ n ih =>
      rw [Nat.toDigits_eq_if (by decide)]
      split
      · exact ⟨n.digitChar, rfl, Nat.digitChar_eq_zero.not.mpr positive.ne'⟩
      · rename_i large
        obtain ⟨c, isFirst, nonzero⟩ := ih (n / 10) (by omega) (by omega)
        exact ⟨c, by simp [List.head?_append, Option.mem_def.mp isFirst], nonzero⟩

theorem ofDigitChars_zeros (count : Nat) : Nat.ofDigitChars 10 (List.replicate count '0') 0 = 0 := by
  induction count with
  | zero => rfl
  | succ count ih => exact ih

theorem ofDigitChars_trailing (digits : List Char) (count : Nat) :
    Nat.ofDigitChars 10 (digits ++ List.replicate count '0') 0 =
      Nat.ofDigitChars 10 digits 0 * 10 ^ count := by
  rw [Nat.ofDigitChars_append, Nat.ofDigitChars_eq_ofDigitChars_zero, ofDigitChars_zeros,
    List.length_replicate, Nat.mul_comm, Nat.add_zero]

theorem ofDigitChars_leading (count : Nat) (digits : List Char) :
    Nat.ofDigitChars 10 (List.replicate count '0' ++ digits) 0 = Nat.ofDigitChars 10 digits 0 := by
  rw [Nat.ofDigitChars_append, ofDigitChars_zeros]

/-- The digits of a decimal end in zeros, which can be told apart from the others. -/
theorem significant {n : Nat} (positive : 0 < n) :
    ∃ digits zeros, ((Nat.toDigits 10 n).reverse.dropWhile (· == '0')).reverse = digits ∧ Leads digits ∧
      (Nat.toDigits 10 n).length = digits.length + zeros ∧ Nat.ofDigitChars 10 digits 0 * 10 ^ zeros = n := by
  obtain ⟨areDigits, c, isFirst, nonzero⟩ := toDigits_leads positive
  have whole := @List.rdropWhile_append_rtakeWhile Char (· == '0') (Nat.toDigits 10 n)
  have zeros : (Nat.toDigits 10 n).rtakeWhile (· == '0') =
      List.replicate ((Nat.toDigits 10 n).rtakeWhile (· == '0')).length '0' :=
    List.eq_replicate_of_mem fun c inside => by
      simpa using List.mem_rtakeWhile_imp inside
  generalize (Nat.toDigits 10 n).rtakeWhile (· == '0') = tail at whole zeros
  generalize kept : (Nat.toDigits 10 n).rdropWhile (· == '0') = digits at whole
  refine ⟨digits, tail.length, kept, ⟨fun c inside => ?_, c, ?_, nonzero⟩, ?_, ?_⟩
  · exact areDigits c (whole ▸ List.mem_append_left _ inside)
  · cases digits with
    | cons => rwa [← whole] at isFirst
    | nil =>
      rw [← whole, zeros] at isFirst
      exact absurd (List.eq_of_mem_replicate (List.mem_of_mem_head? isFirst)) nonzero
  · rw [← whole, List.length_append]
  · rw [← ofDigitChars_trailing, ← zeros, whole, Nat.ofDigitChars_ten_toDigits]

end Number

section Runs
variable {inside : Char → Bool} {front rest : List Char}
variable (within : ∀ c ∈ front, inside c = true) (stop : ∀ c ∈ rest.head?, inside c = false)
include within stop

theorem takeWhile_front : (front ++ rest).takeWhile inside = front := by
  rw [List.takeWhile_append_of_pos within]
  cases rest with
  | nil => simp
  | cons c more => simp [stop c rfl]

theorem dropWhile_front : (front ++ rest).dropWhile inside = rest := by
  rw [List.dropWhile_append_of_pos within]
  cases rest with
  | nil => rfl
  | cons c more => simp [stop c rfl]

end Runs

namespace Json.Reader
open Number (Leads)

/-- What may follow a number: nothing that could belong to it. -/
def Stops (rest : List Char) : Prop := ∀ c ∈ rest.head?, c.isDigit = false ∧ c ≠ '.' ∧ c ≠ 'e' ∧ c ≠ 'E'

variable {rest found : List Char} {negative : Bool}

theorem digits_append (areDigits : ∀ c ∈ found, c.isDigit = true) (some_ : found ≠ [])
    (stop : ∀ c ∈ rest.head?, c.isDigit = false) : digits (found ++ rest) = some (found, rest) := by
  rw [digits, takeWhile_front areDigits stop, dropWhile_front areDigits stop]
  split
  · exact absurd rfl some_
  · rfl

theorem wholePart_append (leads : Leads found) (stop : ∀ c ∈ rest.head?, c.isDigit = false) :
    wholePart (found ++ rest) = some (found, rest) := by
  obtain ⟨c, more, rfl, isDigit, nonzero⟩ := leads.cons
  have read := digits_append leads.areDigits (List.cons_ne_nil c more) stop
  unfold wholePart
  split
  · rename_i same
    exact absurd (List.cons.inj same).1 nonzero
  · exact read

theorem fractionPart_stop (stop : Stops rest) : fractionPart rest = some ([], rest) := by
  unfold fractionPart
  split
  · exact absurd rfl (stop _ rfl).2.1
  · rfl

theorem exponentPart_stop (stop : Stops rest) : exponentPart rest = some (0, rest) := by
  unfold exponentPart
  split
  · exact absurd rfl (stop _ rfl).2.2.1
  · exact absurd rfl (stop _ rfl).2.2.2
  · rfl

/-- A fraction ends where the exponent begins or the number stops. -/
theorem fractionPart_point (areDigits : ∀ c ∈ found, c.isDigit = true) (some_ : found ≠ [])
    (stop : ∀ c ∈ rest.head?, c.isDigit = false) :
    fractionPart ('.' :: (found ++ rest)) = some (found, rest) :=
  digits_append areDigits some_ stop

theorem magnitude_eq {input afterWhole afterFraction whole fraction : List Char} {exponent : Int}
    (atWhole : wholePart input = some (whole, afterWhole))
    (atFraction : fractionPart afterWhole = some (fraction, afterFraction))
    (atExponent : exponentPart afterFraction = some (exponent, rest)) :
    magnitude negative input =
      some (.ofDecimal negative (Nat.ofDigitChars 10 (whole ++ fraction) 0) (exponent - fraction.length),
        rest) := by
  simp [magnitude, atWhole, atFraction, atExponent]

theorem headed {c : Char} (noDigit : c.isDigit = false) (tail : List Char) :
    ∀ d ∈ (c :: tail).head?, d.isDigit = false :=
  fun _ isFirst => Option.some.inj isFirst ▸ noDigit

theorem areDigits_zeros (count : Nat) : ∀ c ∈ List.replicate count '0', c.isDigit = true := fun _ inside =>
  List.eq_of_mem_replicate inside ▸ rfl

section Layouts
variable {digits : List Char} (leads : Leads digits) (stop : Stops rest)
include leads stop

theorem magnitude_whole (zeros : Nat) : magnitude negative (digits ++ List.replicate zeros '0' ++ rest) =
    some (.ofDecimal negative (Nat.ofDigitChars 10 digits 0) zeros, rest) := by
  have padded : Leads (digits ++ List.replicate zeros '0') := by
    obtain ⟨c, more, rfl, -, nonzero⟩ := leads.cons
    exact ⟨List.forall_mem_append.mpr ⟨leads.areDigits, areDigits_zeros _⟩, c, rfl, nonzero⟩
  have read := wholePart_append padded fun c isFirst => (stop c isFirst).1
  rw [magnitude_eq read (fractionPart_stop stop) (exponentPart_stop stop), List.append_nil,
    Number.ofDigitChars_trailing, Number.ofDecimal_shift]
  simp

/-- The second layout: the point stands between two digits. -/
theorem magnitude_inside {point : Nat} (positive : 0 < point) (inside : point < digits.length) :
    magnitude negative (digits.take point ++ '.' :: digits.drop point ++ rest) =
      some (.ofDecimal negative (Nat.ofDigitChars 10 digits 0) (point - digits.length), rest) := by
  have early : Leads (digits.take point) := by
    obtain ⟨c, more, rfl, -, nonzero⟩ := leads.cons
    obtain ⟨before, rfl⟩ := Nat.exists_eq_add_one.mpr positive
    exact ⟨fun c within => leads.areDigits c (List.mem_of_mem_take within), c, rfl, nonzero⟩
  have late : ∀ c ∈ digits.drop point, c.isDigit = true := fun c within =>
    leads.areDigits c (List.mem_of_mem_drop within)
  have some_ : digits.drop point ≠ [] := by
    simp only [ne_eq, List.drop_eq_nil_iff]
    omega
  have shift : (0 - (digits.drop point).length : Int) = point - digits.length := by
    rw [List.length_drop]
    omega
  have fraction := fractionPart_point late some_ fun c isFirst => (stop c isFirst).1
  rw [List.append_assoc, List.cons_append, magnitude_eq (wholePart_append early (headed rfl _)) fraction
    (exponentPart_stop stop), List.take_append_drop, shift]

theorem magnitude_below (zeros : Nat) :
    magnitude negative ('0' :: '.' :: List.replicate zeros '0' ++ digits ++ rest) =
    some (.ofDecimal negative (Nat.ofDigitChars 10 digits 0) (-zeros - digits.length), rest) := by
  have late : ∀ c ∈ List.replicate zeros '0' ++ digits, c.isDigit = true :=
    List.forall_mem_append.mpr ⟨areDigits_zeros _, leads.areDigits⟩
  have some_ : List.replicate zeros '0' ++ digits ≠ [] := by
    obtain ⟨c, more, rfl, -⟩ := leads.cons
    simp
  have shift : (0 - (List.replicate zeros '0' ++ digits).length : Int) = -zeros - digits.length := by
    rw [List.length_append, List.length_replicate]
    omega
  have value : Nat.ofDigitChars 10 (['0'] ++ (List.replicate zeros '0' ++ digits)) 0 =
      Nat.ofDigitChars 10 digits 0 :=
    Number.ofDigitChars_leading (zeros + 1) digits
  have whole : wholePart ('0' :: '.' :: (List.replicate zeros '0' ++ digits ++ rest)) =
      some (['0'], '.' :: (List.replicate zeros '0' ++ digits ++ rest)) := rfl
  have fraction := fractionPart_point late some_ fun c isFirst => (stop c isFirst).1
  simp only [List.cons_append]
  rw [magnitude_eq whole fraction (exponentPart_stop stop), value, shift]

/-- The text after the mantissa of a number with an exponent. -/
def powerText (power : Int) :
    List Char := 'e' :: (if power < 0 then '-' else '+') :: Nat.toDigits 10 power.natAbs

omit leads in
theorem exponentPart_powerText (power : Int) :
    exponentPart (powerText power ++ rest) = some (power, rest) := by
  have read : Reader.digits (Nat.toDigits 10 power.natAbs ++ rest) =
      some (Nat.toDigits 10 power.natAbs, rest) :=
    digits_append (fun _ => Nat.isDigit_of_mem_toDigits (by decide) (by decide)) Nat.toDigits_ne_nil
      fun c isFirst => (stop c isFirst).1
  by_cases below : power < 0
  · have value : -(power.natAbs : Int) = power := by omega
    simp only [powerText, if_pos below, exponentPart, exponentDigits, List.cons_append, read, Option.map_some,
      Nat.ofDigitChars_ten_toDigits, value]
  · have value : (power.natAbs : Int) = power := by omega
    simp only [powerText, if_neg below, exponentPart, exponentDigits, List.cons_append, read, Option.map_some,
      Nat.ofDigitChars_ten_toDigits, value]

/-- The last layout: a digit, the others behind a point, and an exponent. -/
theorem magnitude_power {lead : Char} {more : List Char} (shape : digits = lead :: more) (power : Int) :
    magnitude negative ((if more = [] then [lead] else lead :: '.' :: more) ++ powerText power ++ rest) =
      some (.ofDecimal negative (Nat.ofDigitChars 10 digits 0) (power + 1 - digits.length), rest) := by
  subst shape
  obtain ⟨_, _, same, isDigit, nonzero⟩ := leads.cons
  obtain ⟨rfl, rfl⟩ := List.cons.inj same
  have first : Leads [lead] := ⟨List.forall_mem_singleton.mpr isDigit, lead, rfl, nonzero⟩
  have exponent := exponentPart_powerText stop power
  have letter : ∀ c ∈ (powerText power ++ rest).head?, c.isDigit = false := headed rfl _
  split
  · rename_i none_
    subst none_
    have noPoint : fractionPart (powerText power ++ rest) = some ([], powerText power ++ rest) := rfl
    rw [List.append_assoc, magnitude_eq (wholePart_append first letter) noPoint exponent]
    simp
  · rename_i some_
    have late : ∀ c ∈ more, c.isDigit = true := fun c within =>
      leads.areDigits c (List.mem_cons_of_mem _ within)
    have shift : (power - more.length : Int) = power + 1 - (lead :: more).length := by
      simp only [List.length_cons]
      omega
    have whole : wholePart (lead :: '.' :: (more ++ (powerText power ++ rest))) =
        some ([lead], '.' :: (more ++ (powerText power ++ rest))) :=
      wholePart_append first (headed rfl _)
    simp only [List.append_assoc, List.cons_append]
    rw [magnitude_eq whole (fractionPart_point late some_ letter) exponent, shift]
    rfl

/-- In all four layouts of digits, what is read has the point where it was. -/
theorem magnitude_layout (point : Int) : magnitude negative (Number.layout digits point ++ rest) =
    some (.ofDecimal negative (Nat.ofDigitChars 10 digits 0) (point - digits.length), rest) := by
  unfold Number.layout
  dsimp only
  split
  · rename_i whole
    have place : ((point.toNat - digits.length : Nat) : Int) = point - digits.length := by omega
    rw [magnitude_whole leads stop, place]
  · rename_i notWhole
    split
    · rename_i inside
      have place : (point.toNat : Int) = point := by omega
      rw [magnitude_inside leads stop (by omega) (by omega), place]
    · split
      · have place : (-(-point).toNat : Int) = point := by omega
        rw [magnitude_below leads stop, place]
      · obtain ⟨lead, more, shape, -⟩ := leads.cons
        have reads := @magnitude_power rest negative digits leads stop lead more shape (point - 1)
        rw [Int.sub_add_cancel] at reads
        subst shape
        cases more with
        | nil => exact reads
        | cons next more => exact reads

end Layouts

/-- The text of a decimal that is not zero is read as the decimal. -/
theorem magnitude_chars {decimal : Number.Decimal} (some_ : decimal.digits ≠ 0) (stop : Stops rest) :
    magnitude negative (decimal.chars ++ rest) =
      some (.ofDecimal negative decimal.digits decimal.exponent, rest) := by
  obtain ⟨digits, zeros, stripped, leads, length, value⟩ := Number.significant (Nat.pos_of_ne_zero some_)
  have place : (digits.length + zeros : Nat) + decimal.exponent - digits.length =
    decimal.exponent + zeros := by omega
  rw [Number.Decimal.chars]
  simp only [stripped, length]
  rw [magnitude_layout leads stop, place, ← Number.ofDecimal_shift, value]

end Json.Reader

namespace Number
open Json.Reader (Stops magnitude magnitude_chars)

variable {units : Nat} {rest : List Char}

/-- The first candidate that reads back does so, and without one the exact value is left. -/
theorem ofDecimal_candidate (fits : Fits units) (exact : Decimal) {negative : Bool}
    (denotes : ofDecimal negative exact.digits exact.exponent = .finite negative units fits)
    {chosen : Decimal} (choice : ∃ candidates : List Decimal,
      chosen = (candidates.find? fun decimal => match ofDecimal false decimal.digits decimal.exponent with
      | .finite _ read _ => read == units
      | .infinite _ => false).getD exact) :
    ofDecimal negative chosen.digits chosen.exponent = .finite negative units fits := by
  obtain ⟨candidates, rfl⟩ := choice
  cases found : List.find? _ candidates with
  | none => exact denotes
  | some decimal =>
    have readsBack := List.find?_some found
    dsimp only [Option.getD_some] at readsBack ⊢
    split at readsBack
    · rename_i reads
      obtain rfl := beq_iff_eq.mp readsBack
      exact ofDecimal_finite reads negative
    · cases readsBack

/-- The shortest decimal of a magnitude denotes it. -/
theorem ofDecimal_shortest (fits : Fits units) (negative : Bool) :
    ofDecimal negative (shortest units).digits (shortest units).exponent = .finite negative units fits := by
  refine ofDecimal_candidate fits (exactDecimal units) (ofDecimal_exactDecimal fits) ?_
  unfold shortest
  exact ⟨_, rfl⟩

theorem shortest_ne_zero (fits : Fits units) (some_ : units ≠ 0) : (shortest units).digits ≠ 0 := by
  intro none_
  have reads := ofDecimal_shortest fits false
  unfold ofDecimal at reads
  rw [if_pos none_] at reads
  exact some_ (Number.finite.inj reads).2.symm

end Number

namespace Json.Reader

theorem magnitude_digit {input : List Char} {negative : Bool} {result : Number × List Char}
    (read : magnitude negative input = some result) : ∃ c more, input = c :: more ∧ c.isDigit = true := by
  obtain ⟨⟨whole, rest⟩, atWhole, -⟩ := Option.bind_eq_some_iff.mp read
  unfold wholePart at atWhole
  split at atWhole
  · exact ⟨_, _, rfl, rfl⟩
  · unfold digits at atWhole
    split at atWhole
    · cases atWhole
    · rename_i some_
      cases input with
      | nil => exact absurd rfl some_
      | cons c more =>
        refine ⟨c, more, rfl, ?_⟩
        by_contra noDigit
        exact some_ (List.takeWhile_cons_of_neg noDigit)

/-- A digit or a minus sign begins a number. -/
theorem value_numeral (fuel : Nat) {c : Char} {more : List Char} (begins : c.isDigit = true ∨ c = '-') :
    value (fuel + 1) (c :: more) = (number (c :: more)).map fun (n, rest) => (.number n, rest) := by
  have other {d : Char} (noDigit : d.isDigit = false) (noSign : d ≠ '-') : c ≠ d := by
    rintro rfl
    rcases begins with isDigit | rfl
    · rw [isDigit] at noDigit
      cases noDigit
    · exact noSign rfl
  unfold value
  split
  · rename_i same
    exact absurd (List.cons.inj same).1 (other rfl (by decide))
  · rename_i same
    exact absurd (List.cons.inj same).1 (other rfl (by decide))
  · rename_i same
    exact absurd (List.cons.inj same).1 (other rfl (by decide))
  · rename_i same
    exact absurd (List.cons.inj same).1 (other rfl (by decide))
  · rename_i same
    exact absurd (List.cons.inj same).1 (other rfl (by decide))
  · rename_i same
    exact absurd (List.cons.inj same).1 (other rfl (by decide))
  · rfl

theorem number_unsigned {input : List Char} {result : Number × List Char}
    (read : magnitude false input = some result) : number input = some result := by
  obtain ⟨c, more, rfl, isDigit⟩ := magnitude_digit read
  unfold number
  split
  · rename_i same
    obtain ⟨rfl, -⟩ := List.cons.inj same
    cases isDigit
  · exact read

/-- What is written of a number is its sign and the shortest digits that are read as the number. -/
theorem printed_finite {negative : Bool} {units : Nat} {fits : Number.Fits units} (some_ : units ≠ 0) :
    Printer.number (.finite negative units fits) =
      if negative then '-' :: (Number.shortest units).chars else (Number.shortest units).chars := by
  unfold Printer.number Number.chars
  exact if_neg some_

/-- What is printed of a number begins with a digit or a sign, or is null. -/
theorem printed_begins (n : Number) :
    ∃ c more, Printer.number n = c :: more ∧ (c.isDigit = true ∨ c = '-' ∨ c = 'n') := by
  cases n with
  | infinite negative => exact ⟨'n', _, rfl, .inr (.inr rfl)⟩
  | finite negative units fits =>
    by_cases none_ : units = 0
    · exact ⟨'0', [], if_pos none_, .inl rfl⟩
    · rw [printed_finite none_]
      have stop : Stops [] := fun _ none_ => by cases none_
      have read := @magnitude_chars [] false _ (Number.shortest_ne_zero fits none_) stop
      obtain ⟨c, more, text, isDigit⟩ := magnitude_digit read
      rw [List.append_nil] at text
      cases negative with
      | false =>
        rw [if_neg Bool.false_ne_true]
        exact ⟨c, more, text, .inl isDigit⟩
      | true =>
        rw [if_pos rfl]
        exact ⟨'-', _, rfl, .inr (.inl rfl)⟩

/-- What is printed of a number is read as what it is once it is written. -/
theorem value_number (fuel : Nat) (n : Number) {rest : List Char} (stop : Stops rest) :
    value (fuel + 1) (Printer.number n ++ rest) = some (n.written, rest) := by
  have unsigned {input : List Char} {n : Number} (read : magnitude false input = some (n, rest)) :
      value (fuel + 1) input = some (.number n, rest) := by
    have read' := number_unsigned read
    obtain ⟨c, more, rfl, isDigit⟩ := magnitude_digit read
    rw [value_numeral fuel (.inl isDigit), read']
    rfl
  cases n with
  | infinite negative => cases negative <;> rfl
  | finite negative units fits =>
    by_cases none_ : units = 0
    · have zero : Printer.number (.finite negative units fits) = ['0'] := if_pos none_
      have whole : wholePart ('0' :: rest) = some (['0'], rest) := rfl
      have read :=
        @magnitude_eq rest false _ _ _ _ _ _ whole (fractionPart_stop stop) (exponentPart_stop stop)
      subst none_
      rw [zero, List.singleton_append, unsigned read, Number.written, bne_self_eq_false, Bool.and_false]
      rfl
    · have reads (negative : Bool) : magnitude negative ((Number.shortest units).chars ++ rest) =
          some (.finite negative units fits, rest) := by
        rw [magnitude_chars (Number.shortest_ne_zero fits none_) stop, Number.ofDecimal_shortest fits]
      have nonzero : (units != 0) = true := bne_iff_ne.mpr none_
      rw [Number.written, nonzero, Bool.and_true]
      cases negative with
      | false =>
        rw [printed_finite none_, if_neg Bool.false_ne_true, unsigned (reads false)]
      | true =>
        have read : number ('-' :: ((Number.shortest units).chars ++ rest)) =
          some (.finite true units fits, rest) := reads true
        rw [printed_finite none_, if_pos rfl, List.cons_append, value_numeral fuel (.inr rfl), read]
        rfl

end Json.Reader

end CircuitNames
