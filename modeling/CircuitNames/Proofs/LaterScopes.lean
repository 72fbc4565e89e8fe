import CircuitNames.Proofs.Picks

namespace CircuitNames

namespace Scope

/-- Every number below a counter was handed out. -/
def Counted (scope : Scope) : Prop :=
  ∀ base index, index < (scope.counters.lookup base).getD 0 → numbered base index ∈ scope.names

theorem firstFree_eq {candidate : Nat → String} (distinct : ∀ i j, candidate i = candidate j → i = j)
    {taken : List String} {index found : Nat} (above : index ≤ found)
    (passed : ∀ other, index ≤ other → other < found → candidate other ∈ taken)
    (free : candidate found ∉ taken) :
    firstFree candidate taken index = found := by
  rcases Nat.lt_trichotomy (firstFree candidate taken index) found with less | same | more
  · have inside := passed _ (le_firstFree candidate taken index) less
    exact absurd inside (firstFree_not_mem distinct taken index)
  · exact same
  · exact absurd (mem_of_lt_firstFree above more) free

theorem counters_reserve (scope : Scope) (name : String) :
    (scope.reserve name).counters = scope.counters := by
  unfold reserve
  split <;> rfl

theorem counted_ofNames (names : List String) : (ofNames names).Counted := by
  have none (scope : Scope) : (names.foldl reserve scope).counters = scope.counters := by
    induction names generalizing scope with
    | nil => rfl
    | cons name rest ih => rw [List.foldl_cons, ih, counters_reserve]
  intro base index below
  rw [ofNames, none empty] at below
  exact absurd below (Nat.not_lt_zero index)

theorem Counted.reserve {scope : Scope} (counted : scope.Counted) (name : String) :
    (scope.reserve name).Counted := by
  intro base index below
  rw [counters_reserve] at below
  exact mem_reserve.mpr (Or.inr (counted base index below))

/-- Below the number that a scope remembers for a base all numbered names are taken, also after the next
request. -/
theorem Counted.newName {scope : Scope} (counted : scope.Counted) (base : String) :
    (scope.newName base).2.Counted := by
  unfold Scope.newName
  split
  · intro other index below
    simp only [List.mem_cons]
    rw [List.lookup_cons] at below
    by_cases same : other = base
    · subst same
      simp only [BEq.rfl, Option.getD_some] at below
      rcases Nat.lt_or_eq_of_le (Nat.le_of_lt_succ below) with passed | last
      · rcases Nat.lt_or_ge index ((scope.counters.lookup other).getD 0) with early | late
        · exact Or.inr (counted other index early)
        · exact Or.inr (mem_of_lt_firstFree late passed)
      · exact Or.inl (congrArg (numbered other) last)
    · rw [beq_false_of_ne same] at below
      exact Or.inr (counted other index below)
  · exact counted.reserve base

variable {early late : Scope} (within : early.names ⊆ late.names)
include within

/-- A numbered name that stays free is found again: the counter has not passed it, and what the search
passed over is still taken. -/
theorem newName_again (earlyCounted : early.Counted) (lateCounted : late.Counted) {base : String}
    (free : (early.newName base).1 ∉ late.names) : (late.newName base).1 = (early.newName base).1 := by
  unfold newName at free ⊢
  by_cases taken : base ∈ early.names
  · rw [if_pos (contains_iff.mpr taken)] at free ⊢
    rw [if_pos (contains_iff.mpr (within taken))]
    refine congrArg (numbered base) (firstFree_eq (fun _ _ => numbered_inj) ?_ ?_ free)
    · rw [← Nat.not_lt]
      exact fun passed => free (lateCounted base _ passed)
    · intro other _ before
      rcases Nat.lt_or_ge other ((early.counters.lookup base).getD 0) with counted | searched
      · exact within (earlyCounted base other counted)
      · exact within (mem_of_lt_firstFree searched before)
  · rw [if_neg fun inside => taken (contains_iff.mp inside)] at free ⊢
    rw [if_neg fun inside => free (contains_iff.mp inside)]

/-- A name that was allocated once is allocated again as long as it is free, whatever else has been taken
since. -/
theorem allocate_again {base delimiter : String} (mark : delimiter ≠ "") {avoid : List String}
    (free : (early.allocate base avoid delimiter).1 ∉ late.names) :
    (late.allocate base avoid delimiter).1 = (early.allocate base avoid delimiter).1 := by
  refine congrArg (extended base delimiter)
    (firstFree_eq (fun _ _ => extended_inj mark) (Nat.zero_le _) ?_ ?_)
  · intro other _ before
    rcases List.mem_append.mp (mem_of_lt_firstFree (Nat.zero_le _) before) with taken | avoided
    · exact List.mem_append_left _ (within taken)
    · exact List.mem_append_right _ avoided
  · intro inside
    rcases List.mem_append.mp inside with taken | avoided
    · exact free taken
    · exact early.allocate_not_mem base avoid mark (List.mem_append_right _ avoided)

end Scope

/-- Rules that reserve nothing but the name they pick, and pick it again in a later scope where it is free. -/
structure Rule.Steady (rule : Rule) : Prop where
  fresh : ∀ {name scope picked}, (rule name scope).1 = some picked → picked ∉ scope.names
  keeps : ∀ {name scope other}, other ∈ scope.names → other ∈ (rule name scope).2.names
  adds : ∀ {name scope other}, other ∈ (rule name scope).2.names →
    other ∈ scope.names ∨ (rule name scope).1 = some other
  counted : ∀ {name scope}, Scope.Counted scope → (rule name scope).2.Counted
  leaves : ∀ {name early late}, (rule name early).1 = none → (rule name late).1 = none
  again : ∀ {name early late picked}, Scope.Counted early → Scope.Counted late → early.names ⊆ late.names →
    (rule name early).1 = some picked → picked ∉ late.names → (rule name late).1 = some picked

namespace Rule

/-- A rule that can ask the name alone whether to pick another one gives free names. -/
theorem Steady.fair {rule : Rule} (steady : rule.Steady) : rule.Fair where
  fresh picks := Or.inr (steady.fresh picks)
  keeps := steady.keeps

section Choice
variable {rule : Rule} (steady : rule.Steady) {changes : String → Prop} [DecidablePred changes]
include steady

theorem Steady.ite : Steady fun name scope => if changes name then rule name scope else (none, scope) where
  fresh {name _ _} := by
    split
    · exact steady.fresh
    · simp
  keeps {name _ _} := by
    split
    · exact steady.keeps
    · exact id
  adds {name _ _} := by
    split
    · exact steady.adds
    · exact Or.inl
  counted {name _} := by
    split
    · exact steady.counted
    · exact id
  leaves {name _ _} := by
    split
    · exact steady.leaves
    · exact fun _ => rfl
  again {name _ _ _} := by
    split
    · exact steady.again
    · simp

end Choice

theorem steady_newName (map : String → String) :
    Steady fun name scope => (some (scope.newName (map name)).1, (scope.newName (map name)).2) where
  fresh picks := Option.some.inj picks ▸ Scope.newName_not_mem _ _
  keeps inside := Scope.mem_newName.mpr (Or.inr inside)
  adds inside := (Scope.mem_newName.mp inside).symm.imp_right fun same => congrArg some same.symm
  counted counted := counted.newName _
  leaves picks := by cases picks
  again earlyCounted lateCounted within picks free := by
    obtain rfl := Option.some.inj picks
    exact congrArg some (Scope.newName_again within earlyCounted lateCounted free)

theorem steady_allocate (words : List String) :
    Steady fun name scope => (some (scope.allocate name words "_").1, (scope.allocate name words "_").2) where
  fresh {name scope _} picks inside := by
    obtain rfl := Option.some.inj picks
    exact scope.allocate_not_mem name words (by decide) (List.mem_append_left _ inside)
  keeps inside := Scope.mem_allocate.mpr (Or.inr inside)
  adds inside := (Scope.mem_allocate.mp inside).symm.imp_right fun same => congrArg some same.symm
  counted counted := counted.reserve _
  leaves picks := by cases picks
  again _ _ within picks free := by
    obtain rfl := Option.some.inj picks
    exact congrArg some (Scope.allocate_again within (by decide) free)

theorem steady_avoidKeywords (words : List String) : (avoidKeywords words).Steady :=
  (steady_allocate words).ite

theorem steady_changeCase (map : String → String) : (changeCase map).Steady := by
  have same : changeCase map = fun name scope => if map name ≠ name then
      (some (scope.newName (map name)).1, (scope.newName (map name)).2) else (none, scope) := by
    funext name scope
    exact (ite_not ..).symm
  exact same ▸ (steady_newName map).ite

end Rule

theorem RuleSpec.steady (spec : RuleSpec) : spec.rule.Steady := by
  cases spec with
  | verilogKeywords => exact Rule.steady_avoidKeywords _
  | keywords words => exact Rule.steady_avoidKeywords words
  | lowerCase => exact Rule.steady_changeCase _
  | upperCase => exact Rule.steady_changeCase _
  | prepend front => exact Rule.steady_newName (front ++ ·)

namespace Plan

variable {plan : Plan} {target : Target} {scope : Scope}

theorem pick_of_none (unskipped : plan.skips.contains target = false)
    (leaves : (plan.rule target.terminalName scope).1 = none) :
    (plan.pick target scope).1 = target.terminalName := by
  rcases plan.pick_cases target scope with ⟨skipped, _⟩ | ⟨_, picks, _⟩ | ⟨_, fresh, ruled, _, _⟩
  · simp [skipped] at unskipped
  · rw [picks]
  · simp [leaves] at ruled

theorem pick_of_some (unskipped : plan.skips.contains target = false) {fresh : String}
    (ruled : (plan.rule target.terminalName scope).1 = some fresh) : (plan.pick target scope).1 = fresh := by
  rcases plan.pick_cases target scope with ⟨skipped, _⟩ | ⟨_, picks, same⟩ | ⟨_, other, alsoRuled, _, picks⟩
  · simp [skipped] at unskipped
  · rw [picks, same fresh ruled]
  · rw [picks, Option.some.inj (alsoRuled.symm.trans ruled)]

variable (steady : plan.rule.Steady)
include steady

theorem mem_pick {other : String} (inside : other ∈ (plan.pick target scope).2.names) :
    other ∈ scope.names ∨ other = (plan.pick target scope).1 := by
  rcases plan.pick_cases target scope with ⟨_, picks⟩ | ⟨_, picks, same⟩ | ⟨_, fresh, ruled, _, picks⟩
  · exact Or.inl (by simpa only [picks] using inside)
  · rw [picks] at inside ⊢
    exact (steady.adds inside).imp_right (same other)
  · rw [picks] at inside ⊢
    rcases Scope.mem_reserve.mp inside with same | added
    · exact Or.inr same
    · exact (steady.adds added).imp_right fun alsoRuled => Option.some.inj (alsoRuled.symm.trans ruled)

theorem mem_pickAll {targets : List Target} {other : String}
    (inside : other ∈ (plan.pickAll targets scope).2.names) :
    other ∈ scope.names ∨ other ∈ (plan.pickAll targets scope).1 := by
  induction targets generalizing scope with
  | nil => exact Or.inl inside
  | cons target rest ih =>
    rcases ih inside with before | later
    · exact (mem_pick steady before).imp_right fun same => List.mem_cons.mpr (Or.inl same)
    · exact Or.inr (List.mem_cons_of_mem _ later)

theorem pick_counted (counted : scope.Counted) : (plan.pick target scope).2.Counted := by
  rcases plan.pick_cases target scope with ⟨_, picks⟩ | ⟨_, picks, _⟩ | ⟨_, fresh, _, _, picks⟩
  · exact picks ▸ counted
  · exact picks ▸ steady.counted counted
  · exact picks ▸ (steady.counted counted).reserve fresh

theorem pickAll_counted {targets : List Target} (counted : scope.Counted) :
    (plan.pickAll targets scope).2.Counted := by
  induction targets generalizing scope with
  | nil => exact counted
  | cons target rest ih => exact ih (pick_counted steady counted)

/-- What is picked for a name is picked for it again in a later scope, unless it is handed out in between. -/
theorem pick_again {first second : Target} (sameName : first.terminalName = second.terminalName)
    (unskipped : plan.skips.contains first = false) (alsoUnskipped : plan.skips.contains second = false)
    {targets : List Target} (counted : scope.Counted)
    (free : (plan.pick first scope).1 ∉ (plan.pickAll targets scope).1) :
    (plan.pick second (plan.pickAll targets scope).2).1 = (plan.pick first scope).1 := by
  cases ruled : (plan.rule first.terminalName scope).1 with
  | none =>
    rw [pick_of_none unskipped ruled, sameName]
    exact pick_of_none alsoUnskipped (steady.leaves (sameName ▸ ruled))
  | some fresh =>
    rw [pick_of_some unskipped ruled] at free ⊢
    have stillFree : fresh ∉ (plan.pickAll targets scope).2.names := by
      intro inside
      rcases mem_pickAll steady inside with taken | given
      · exact steady.fresh ruled taken
      · exact free given
    have later := steady.again counted (pickAll_counted steady counted) (fun _ => pickAll_keeps steady.fair)
      ruled stillFree
    exact pick_of_some alsoUnskipped (sameName ▸ later)

end Plan

end CircuitNames
