import CircuitNames.Rename.Sweep

namespace CircuitNames

/-- What an engine may expect of a rule: a name it picks is that of the declaration or one the scope
did not hold before, and the rule takes no name out of the scope. -/
structure Rule.Fair (rule : Rule) : Prop where
  fresh : ∀ {name scope picked}, (rule name scope).1 = some picked → picked = name ∨ picked ∉ scope.names
  keeps : ∀ {name scope other}, other ∈ scope.names → other ∈ (rule name scope).2.names

namespace Rule

section Picked
variable {words : List String} {map : String → String} {name picked : String} {scope : Scope}

/-- For which names a rule picks none, and which one it picks for another: here the rule against keywords. -/
theorem avoidKeywords_keeps_iff : (avoidKeywords words name scope).1 = none ↔ name ∉ words := by
  unfold avoidKeywords
  split <;> simp_all

theorem avoidKeywords_picks (picks : (avoidKeywords words name scope).1 = some picked) :
    picked = (scope.allocate name words "_").1 := by
  unfold avoidKeywords at picks
  split at picks
  · exact (Option.some.inj picks).symm
  · cases picks

theorem changeCase_keeps_iff : (changeCase map name scope).1 = none ↔ map name = name := by
  unfold changeCase
  split <;> simp_all

theorem changeCase_picks (picks : (changeCase map name scope).1 = some picked) :
    picked = (scope.newName (map name)).1 := by
  unfold changeCase at picks
  split at picks
  · cases picks
  · exact (Option.some.inj picks).symm

end Picked

theorem fair_avoidKeywords (words : List String) : (avoidKeywords words).Fair where
  fresh := by
    intro name scope picked picks
    obtain rfl := avoidKeywords_picks picks
    have free := scope.allocate_not_mem name words (show "_" ≠ "" by decide)
    exact Or.inr fun inside => free (List.mem_append_left _ inside)
  keeps := by
    intro name scope other inside
    unfold avoidKeywords
    split
    · exact Scope.mem_allocate.mpr (Or.inr inside)
    · exact inside

theorem fair_changeCase (map : String → String) : (changeCase map).Fair where
  fresh := by
    intro name scope picked picks
    exact Or.inr (changeCase_picks picks ▸ scope.newName_not_mem _)
  keeps := by
    intro name scope other inside
    unfold changeCase
    split
    · exact inside
    · exact Scope.mem_newName.mpr (Or.inr inside)

theorem fair_prepend (front : String) : (prepend front).Fair where
  fresh := by
    intro name scope picked picks
    cases picks
    exact Or.inr (scope.newName_not_mem _)
  keeps := fun inside => Scope.mem_newName.mpr (Or.inr inside)

end Rule

/-- Every rule a configuration can name is fair. -/
theorem RuleSpec.fair (spec : RuleSpec) : spec.rule.Fair := by
  cases spec with
  | verilogKeywords => exact Rule.fair_avoidKeywords _
  | keywords words => exact Rule.fair_avoidKeywords words
  | lowerCase => exact Rule.fair_changeCase _
  | upperCase => exact Rule.fair_changeCase _
  | prepend front => exact Rule.fair_prepend front

namespace Plan

/-- The name a declaration gets in its scope, and the scope after that. -/
def pick (plan : Plan) (target : Target) (scope : Scope) : String × Scope :=
  if plan.skips.contains target then (target.terminalName, scope)
  else match plan.rule target.terminalName scope with
    | (none, later) => (target.terminalName, later)
    | (some fresh, later) =>
      if fresh = target.terminalName then (target.terminalName, later) else (fresh, later.reserve fresh)

/-- The names of declarations that come one after the other in the same scope. -/
def pickAll (plan : Plan) : List Target → Scope → List String × Scope
  | [], scope => ([], scope)
  | target :: rest, scope =>
    let (name, later) := plan.pick target scope
    let (names, last) := plan.pickAll rest later
    (name :: names, last)

variable {plan : Plan} {target : Target} {scope : Scope}

theorem rename_name (key : ScopeKey) (sweep : Sweep) :
    (plan.rename key target sweep).1 = (plan.pick target (sweep.scope key)).1 := by
  unfold rename pick
  dsimp only
  split
  · rfl
  · rcases plan.rule target.terminalName (sweep.scope key) with ⟨_ | fresh, later⟩
    · rfl
    · dsimp only
      split <;> rename_i same
      · exact same ▸ rfl
      · rfl

/-- A declaration works on the scope it is in. -/
theorem rename_lookup_self {key : ScopeKey} {sweep : Sweep} (opened : sweep.scopes.lookup key = some scope) :
    (plan.rename key target sweep).2.scopes.lookup key = some (plan.pick target scope).2 := by
  have atKey : sweep.scope key = scope := by simp [Sweep.scope, opened]
  unfold rename pick
  dsimp only
  split
  · exact opened
  · rw [atKey]
    rcases plan.rule target.terminalName scope with ⟨_ | fresh, later⟩
    · simp [Sweep.setScope]
    · dsimp only
      split <;> simp [Sweep.setScope]

/-- A rename touches the scope of its target only. -/
theorem rename_lookup_of_ne {key other : ScopeKey} {sweep : Sweep} (apart : other ≠ key) :
    (plan.rename key target sweep).2.scopes.lookup other = sweep.scopes.lookup other := by
  unfold rename
  dsimp only
  split
  · rfl
  · rcases plan.rule target.terminalName (sweep.scope key) with ⟨_ | fresh, later⟩
    · simp [Sweep.setScope, List.lookup_cons, beq_false_of_ne apart]
    · dsimp only
      split <;> simp [Sweep.setScope, List.lookup_cons, beq_false_of_ne apart]

/-- Everything a declaration can come to: it is skipped, the rule leaves its name, or the rule picks
another one, which the scope holds from then on. -/
theorem pick_cases (plan : Plan) (target : Target) (scope : Scope) :
    (plan.skips.contains target = true ∧ plan.pick target scope = (target.terminalName, scope)) ∨
    (plan.skips.contains target = false ∧
      plan.pick target scope = (target.terminalName, (plan.rule target.terminalName scope).2) ∧
      ∀ picked, (plan.rule target.terminalName scope).1 = some picked → picked = target.terminalName) ∨
    (plan.skips.contains target = false ∧
      ∃ fresh, (plan.rule target.terminalName scope).1 = some fresh ∧ fresh ≠ target.terminalName ∧
        plan.pick target scope = (fresh, (plan.rule target.terminalName scope).2.reserve fresh)) := by
  unfold pick
  split
  · rename_i skipped
    exact Or.inl ⟨skipped, rfl⟩
  · rename_i unskipped
    refine Or.inr ?_
    generalize plan.rule target.terminalName scope = outcome
    obtain ⟨_ | fresh, later⟩ := outcome
    · exact Or.inl ⟨by simpa using unskipped, rfl, by simp⟩
    · by_cases same : fresh = target.terminalName
      · exact Or.inl ⟨by simpa using unskipped, by simp [same], by simp [same]⟩
      · exact Or.inr ⟨by simpa using unskipped, fresh, rfl, same, by simp [same]⟩

section Fair
variable (fair : plan.rule.Fair)
include fair

theorem pick_keeps {other : String} (inside : other ∈ scope.names) :
    other ∈ (plan.pick target scope).2.names := by
  rcases plan.pick_cases target scope with ⟨_, picks⟩ | ⟨_, picks, _⟩ | ⟨_, fresh, _, _, picks⟩
  · exact picks ▸ inside
  · exact picks ▸ fair.keeps inside
  · exact picks ▸ Scope.mem_reserve.mpr (Or.inr (fair.keeps inside))

/-- A declaration keeps its name or gets one that nothing in its scope had. -/
theorem pick_fresh :
    (plan.pick target scope).1 = target.terminalName ∨ (plan.pick target scope).1 ∉ scope.names := by
  rcases plan.pick_cases target scope with ⟨_, picks⟩ | ⟨_, picks, _⟩ | ⟨_, fresh, ruled, changed, picks⟩
  · exact Or.inl (by rw [picks])
  · exact Or.inl (by rw [picks])
  · exact Or.inr (by simpa only [picks] using (fair.fresh ruled).resolve_left changed)

theorem pick_reserved (own : target.terminalName ∈ scope.names) :
    (plan.pick target scope).1 ∈ (plan.pick target scope).2.names := by
  rcases plan.pick_cases target scope with ⟨_, picks⟩ | ⟨_, picks, _⟩ | ⟨_, fresh, _, _, picks⟩
  · exact picks ▸ own
  · exact picks ▸ fair.keeps own
  · exact picks ▸ Scope.mem_reserve.mpr (Or.inl rfl)

theorem pickAll_keeps {targets : List Target} {other : String} (inside : other ∈ scope.names) :
    other ∈ (plan.pickAll targets scope).2.names := by
  induction targets generalizing scope with
  | nil => exact inside
  | cons target rest ih => exact ih (pick_keeps fair inside)

/-- A name that is given to one of the targets is the target's own, or was not in the scope before. -/
theorem pickAll_fresh {targets : List Target} {name : String}
    (given : name ∈ (plan.pickAll targets scope).1) :
    (∃ target ∈ targets, name = target.terminalName) ∨ name ∉ scope.names := by
  induction targets generalizing scope with
  | nil => cases given
  | cons target rest ih =>
    rcases List.mem_cons.mp given with rfl | later
    · exact (pick_fresh fair).imp_left fun same => ⟨target, List.mem_cons_self, same⟩
    · rcases ih later with ⟨other, inside, same⟩ | free
      · exact Or.inl ⟨other, List.mem_cons_of_mem _ inside, same⟩
      · exact Or.inr fun old => free (pick_keeps fair old)

/-- Declarations with distinct names, all of them reserved before, get distinct names. A name that one
of them gets is reserved from then on, so a later one can only have it as its own name; but those are
distinct, and were reserved before anything was picked. -/
theorem pickAll_nodup {targets : List Target} (distinct : (targets.map Target.terminalName).Nodup)
    (reserved : ∀ target ∈ targets, target.terminalName ∈ scope.names) :
    (plan.pickAll targets scope).1.Nodup := by
  induction targets generalizing scope with
  | nil => exact List.nodup_nil
  | cons target rest ih =>
    obtain ⟨apart, distinctRest⟩ := List.nodup_cons.mp distinct
    have own := reserved target List.mem_cons_self
    have reservedRest : ∀ other ∈ rest, other.terminalName ∈ (plan.pick target scope).2.names :=
      fun other inside => pick_keeps fair (reserved other (List.mem_cons_of_mem _ inside))
    refine List.nodup_cons.mpr ⟨fun again => ?_, ih distinctRest reservedRest⟩
    rcases pickAll_fresh fair again with ⟨other, inside, same⟩ | free
    · rcases @pick_fresh plan target scope fair with kept | fresh
      · exact apart (List.mem_map.mpr ⟨other, inside, same.symm.trans kept⟩)
      · exact fresh (same ▸ reserved other (List.mem_cons_of_mem _ inside))
    · exact free (pick_reserved fair own)

end Fair

theorem length_pickAll (targets : List Target) (scope : Scope) :
    (plan.pickAll targets scope).1.length = targets.length := by
  induction targets generalizing scope with
  | nil => rfl
  | cons target rest ih => simp [pickAll, ih]

theorem pickAll_append (first later : List Target) (scope : Scope) :
    plan.pickAll (first ++ later) scope =
      ((plan.pickAll first scope).1 ++ (plan.pickAll later (plan.pickAll first scope).2).1,
        (plan.pickAll later (plan.pickAll first scope).2).2) := by
  induction first generalizing scope with
  | nil => rfl
  | cons target rest ih => simp [pickAll, ih]

end Plan

end CircuitNames
