import CircuitNames.Proofs.Picks
import CircuitNames.Text.Identifier

namespace CircuitNames

namespace Identifier

theorem isTail_of_isHead {c : Char} (head : isHead c = true) : isTail c = true := by
  simp only [isHead, isTail, Char.isAlphanum, Bool.or_eq_true] at head ⊢
  rcases head with letter | underscore
  · exact Or.inl (Or.inl (Or.inl letter))
  · exact Or.inl (Or.inr underscore)

theorem toNat_lt_of_isTail {c : Char} (tail : isTail c = true) : c.toNat < 128 := by
  have letter : c.isAlpha = (decide (c.val ≥ 'A'.val ∧ c.val ≤ 'Z'.val) ||
    (decide (c.val ≥ 'a'.val) && decide (c.val ≤ 'z'.val))) := rfl
  simp only [isTail, Char.isAlphanum, letter, Char.isDigit, Bool.or_eq_true, decide_eq_true_eq,
    Bool.and_eq_true, beq_iff_eq, UInt32.le_iff_toNat_le] at tail
  change ((((65 ≤ c.toNat ∧ c.toNat ≤ 90) ∨ (97 ≤ c.toNat ∧ c.toNat ≤ 122)) ∨ (48 ≤ c.toNat ∧ c.toNat ≤ 57)) ∨
    c = '_') ∨ c = '$' at tail
  rcases tail with ((inRange | digit) | rfl) | rfl
  · omega
  · omega
  · decide
  · decide

/-- What holds of all characters that a name can have is checked one by one. -/
theorem of_isTail {P : Char → Prop}
    (each : ∀ code < 128, isTail (Char.ofNat code) = true → P (Char.ofNat code)) {c : Char}
    (tail : isTail c = true) : P c := by
  have found := each c.toNat (toNat_lt_of_isTail tail)
  rw [Char.ofNat_toNat] at found
  exact found tail

theorem isTail_toLower {c : Char} (tail : isTail c = true) : isTail c.toLower = true :=
  of_isTail (P := fun c => isTail c.toLower = true) (by decide +kernel) tail

theorem isTail_toUpper {c : Char} (tail : isTail c = true) : isTail c.toUpper = true :=
  of_isTail (P := fun c => isTail c.toUpper = true) (by decide +kernel) tail

theorem isHead_toLower {c : Char} (head : isHead c = true) : isHead c.toLower = true :=
  of_isTail (P := fun c => isHead c = true → isHead c.toLower = true) (by decide +kernel)
    (isTail_of_isHead head) head

theorem isHead_toUpper {c : Char} (head : isHead c = true) : isHead c.toUpper = true :=
  of_isTail (P := fun c => isHead c = true → isHead c.toUpper = true) (by decide +kernel)
    (isTail_of_isHead head) head

theorem isTail_of_mem {name : String} (identifier : isIdentifier name = true) :
    ∀ c ∈ name.toList, isTail c = true := by
  unfold isIdentifier at identifier
  generalize name.toList = chars at identifier
  cases chars with
  | nil => cases identifier
  | cons head tail =>
    obtain ⟨starts, goesOn⟩ := Bool.and_eq_true_iff.mp identifier
    exact List.forall_mem_cons.mpr ⟨isTail_of_isHead starts, List.all_eq_true.mp goesOn⟩

theorem append {name last : String} (identifier : isIdentifier name = true)
    (tails : ∀ c ∈ last.toList, isTail c = true) : isIdentifier (name ++ last) = true := by
  unfold isIdentifier at identifier ⊢
  rw [String.toList_append]
  generalize name.toList = chars at identifier
  cases chars with
  | nil => cases identifier
  | cons head tail =>
    obtain ⟨starts, goesOn⟩ := Bool.and_eq_true_iff.mp identifier
    have all : ∀ c ∈ tail ++ last.toList, isTail c = true :=
      List.forall_mem_append.mpr ⟨List.all_eq_true.mp goesOn, tails⟩
    exact Bool.and_eq_true_iff.mpr ⟨starts, List.all_eq_true.mpr all⟩

theorem map {name : String} (identifier : isIdentifier name = true) {f : Char → Char}
    (heads : ∀ c, isHead c = true → isHead (f c) = true)
    (tails : ∀ c, isTail c = true → isTail (f c) = true) :
    isIdentifier (String.ofList (name.toList.map f)) = true := by
  unfold isIdentifier at identifier ⊢
  rw [String.toList_ofList]
  generalize name.toList = chars at identifier
  cases chars with
  | nil => cases identifier
  | cons head tail =>
    obtain ⟨starts, goesOn⟩ := Bool.and_eq_true_iff.mp identifier
    refine Bool.and_eq_true_iff.mpr ⟨heads head starts, List.all_eq_true.mpr fun c inside => ?_⟩
    obtain ⟨old, member, rfl⟩ := List.mem_map.mp inside
    exact tails old (List.all_eq_true.mp goesOn old member)

theorem numbered {base : String} (identifier : isIdentifier base = true) (index : Nat) :
    isIdentifier (Scope.numbered base index) = true := by
  have digits : ∀ c ∈ index.repr.toList, isTail c = true := by
    intro c inside
    rw [Nat.toList_repr] at inside
    simp [isTail, Char.isAlphanum, Nat.isDigit_of_mem_toDigits (by decide) (by decide) inside]
  have tails : ∀ c ∈ ("_" ++ index.repr).toList, isTail c = true := by
    rw [String.toList_append]
    exact List.forall_mem_cons.mpr ⟨by decide, digits⟩
  have same : Scope.numbered base index = base ++ ("_" ++ index.repr) := by
    simp [Scope.numbered, toString, String.append_assoc]
  exact same ▸ append identifier tails

theorem extended {base : String} (identifier : isIdentifier base = true) (index : Nat) :
    isIdentifier (Scope.extended base "_" index) = true := by
  refine append identifier fun c inside => ?_
  obtain rfl : c = '_' := by simpa [String.toList_join] using inside
  decide

/-- The full mapping of an identifier maps each character on its own. -/
theorem lowerChars_eq {chars : List Char} (tails : ∀ c ∈ chars, isTail c = true) (inWord : Bool) :
    Casing.lowerChars inWord chars = chars.map Char.toLower := by
  induction chars generalizing inWord with
  | nil => rfl
  | cons c rest ih =>
    obtain ⟨tail, tailsRest⟩ := List.forall_mem_cons.mp tails
    have small := toNat_lt_of_isTail tail
    have noSigma : c ≠ 'Σ' := by
      rintro rfl
      exact absurd small (by decide)
    rw [Casing.lowerChars, if_neg noSigma, Casing.lowerChar, if_pos small, ih tailsRest]
    rfl

/-- In identifiers no character has more than one character for its upper case. -/
theorem upperChars_eq {chars : List Char} (tails : ∀ c ∈ chars, isTail c = true) :
    chars.flatMap Casing.upperChar = chars.map Char.toUpper := by
  have each : chars.map Casing.upperChar = chars.map fun c => [c.toUpper] :=
    List.map_congr_left fun c inside => if_pos (toNat_lt_of_isTail (tails c inside))
  rw [List.map_eq_flatMap, List.flatMap_def, List.flatMap_def, each]

theorem lowerCase {name : String} (identifier : isIdentifier name = true) :
    isIdentifier (lowerCase name) = true := by
  rw [CircuitNames.lowerCase, lowerChars_eq (isTail_of_mem identifier)]
  exact map identifier (fun _ => isHead_toLower) fun _ => isTail_toLower

theorem upperCase {name : String} (identifier : isIdentifier name = true) :
    isIdentifier (upperCase name) = true := by
  rw [CircuitNames.upperCase, upperChars_eq (isTail_of_mem identifier)]
  exact map identifier (fun _ => isHead_toUpper) fun _ => isTail_toUpper

theorem newName {base : String} (identifier : isIdentifier base = true) (scope : Scope) :
    isIdentifier (scope.newName base).1 = true := by
  unfold Scope.newName
  split
  · exact numbered identifier _
  · exact identifier

end Identifier

/-- Rules that pick identifiers for identifiers. -/
def Rule.Identifies (rule : Rule) : Prop :=
  ∀ {name scope picked}, isIdentifier name = true → (rule name scope).1 = some picked →
    isIdentifier picked = true

/-- The rules that can be asked for by name, but for prefixes that are no identifiers. -/
def RuleSpec.Proper : RuleSpec → Prop
  | prepend front => isIdentifier front = true
  | _ => True

instance : (spec : RuleSpec) → Decidable spec.Proper
  | .prepend front => inferInstanceAs (Decidable (isIdentifier front = true))
  | .verilogKeywords | .keywords _ | .lowerCase | .upperCase => isTrue trivial

namespace Rule

theorem identifies_avoidKeywords (words : List String) : (avoidKeywords words).Identifies := by
  intro name scope picked identifier picks
  exact avoidKeywords_picks picks ▸ Identifier.extended identifier _

theorem identifies_changeCase {map : String → String}
    (keeps : ∀ name, isIdentifier name = true → isIdentifier (map name) = true) :
    (changeCase map).Identifies := by
  intro name scope picked identifier picks
  exact changeCase_picks picks ▸ Identifier.newName (keeps name identifier) scope

theorem identifies_prepend {front : String} (proper : isIdentifier front = true) :
    (prepend front).Identifies := by
  intro name scope picked identifier picks
  have joined := Identifier.append proper (Identifier.isTail_of_mem identifier)
  exact Option.some.inj picks ▸ Identifier.newName joined scope

end Rule

/-- A rule makes identifiers of identifiers, if the prefix, should it have one, is an identifier itself. -/
theorem RuleSpec.identifies {spec : RuleSpec} (proper : spec.Proper) : spec.rule.Identifies := by
  cases spec with
  | verilogKeywords => exact Rule.identifies_avoidKeywords _
  | keywords words => exact Rule.identifies_avoidKeywords words
  | lowerCase => exact Rule.identifies_changeCase fun _ => Identifier.lowerCase
  | upperCase => exact Rule.identifies_changeCase fun _ => Identifier.upperCase
  | prepend front => exact Rule.identifies_prepend proper

end CircuitNames
