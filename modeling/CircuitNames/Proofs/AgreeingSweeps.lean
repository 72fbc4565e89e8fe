import CircuitNames.Proofs.LockstepRuns
import CircuitNames.Proofs.PassRun

namespace CircuitNames

namespace Ledger

/-- Each source is named by identifiers, and its replacements are of its kind. -/
def Kinded (ledger : Ledger) : Prop :=
  ∀ entry ∈ ledger.entries, entry.source.Identified ∧
    ∀ replacement ∈ entry.replacements, replacement.kind = entry.source.kind

theorem mem_addReplacement {known : List Target} {target other : Target}
    (inside : other ∈ addReplacement known target) :
    other ∈ known ∨ other = target := by
  unfold addReplacement at inside
  split at inside
  · exact Or.inl inside
  · simpa using inside

theorem Kinded.register {ledger : Ledger} (kinded : ledger.Kinded) {source replacement : Target}
    (names : source.Identified) (same : replacement.kind = source.kind) :
    (ledger.register source replacement).Kinded := by
  intro entry inside
  unfold Ledger.register at inside
  split at inside
  · obtain ⟨old, member, rfl⟩ := List.mem_map.mp inside
    obtain ⟨identified, kinds⟩ := kinded old member
    split
    · rename_i key
      obtain rfl := Target.eq_of_text_eq identified names key
      refine ⟨identified, fun other isReplacement => ?_⟩
      rcases mem_addReplacement isReplacement with before | rfl
      · exact kinds other before
      · exact same
    · exact ⟨identified, kinds⟩
  · rcases List.mem_append.mp inside with old | new
    · exact kinded entry old
    · obtain rfl := List.mem_singleton.mp new
      exact ⟨names, List.forall_mem_singleton.mpr same⟩

/-- A replacement is of the kind of what it replaces. -/
theorem Kinded.resolve?_kind {ledger : Ledger} (kinded : ledger.Kinded) {target replacement : Target}
    (names : target.Identified) (found : ledger.resolve? target = some replacement) :
    replacement.kind = target.kind := by
  unfold Ledger.resolve? get? at found
  split at found
  · rename_i single
    obtain ⟨entry, isEntry, same⟩ := Option.map_eq_some_iff.mp single
    obtain rfl := Option.some.inj found
    obtain ⟨identified, kinds⟩ := kinded entry (List.mem_of_find?_eq_some isEntry)
    have key : entry.source.text = target.text := by simpa [Entry.key] using List.find?_some isEntry
    obtain rfl := Target.eq_of_text_eq identified names key
    exact kinds _ (same ▸ List.mem_cons_self)
  · cases found

end Ledger

/-- Where the renames keep the kinds of what they rename, a name that is asked for is found. -/
theorem Sweep.nameOf_total {sweep : Sweep} (kinded : sweep.renames.Kinded) {target : Target}
    (names : target.Identified) (name : String) : ∃ result, sweep.nameOf name target = .ok result := by
  unfold nameOf
  split
  · exact ⟨_, rfl⟩
  · rename_i found
    exact ⟨_, if_pos (kinded.resolve?_kind names found)⟩

def Binding.Identified : Binding → Prop
  | .inst target => (Target.inst target).Identified
  | .memory target => (Target.reference target).Identified

/-- Sweeps that agree on the scopes that are kept, and on what the names of a module denote. Their renames may
differ, as long as every name that is asked for can be found. -/
structure Sweep.Agree (kept : ScopeKey → Prop) (s t : Sweep) : Prop where
  scopes : ∀ key, kept key → s.scopes.lookup key = t.scopes.lookup key
  bindings : s.bindings = t.bindings
  bound : ∀ entry ∈ s.bindings.entries, entry.2.Identified
  kinded : s.renames.Kinded ∧ t.renames.Kinded

/-- Plans with the same rule that skip the same targets in the scopes that are kept. -/
structure Plan.Parallel (kept : ScopeKey → Prop) (plan other : Plan) : Prop where
  rule : plan.rule = other.rule
  skips : ∀ target : Target, target.Identified → kept target.scope →
    plan.skips.contains target = other.skips.contains target

namespace Plan

theorem rename_lookup (plan : Plan) (key other : ScopeKey) (target : Target) (sweep : Sweep) :
    (plan.rename key target sweep).2.scopes.lookup other =
      if other = key ∧ plan.skips.contains target = false then some (plan.pick target (sweep.scope key)).2
      else sweep.scopes.lookup other := by
  by_cases same : other = key
  · subst same
    unfold rename pick
    dsimp only
    split
    · simp [*]
    · rcases plan.rule target.terminalName (sweep.scope other) with ⟨_ | fresh, later⟩
      · simp [Sweep.setScope, *]
      · dsimp only
        split <;> simp [Sweep.setScope, *]
  · rw [rename_lookup_of_ne same]
    simp [same]

theorem rename_bindings (plan : Plan) (key : ScopeKey) (target : Target) (sweep : Sweep) :
    (plan.rename key target sweep).2.bindings = sweep.bindings := by
  unfold rename
  dsimp only
  split
  · rfl
  · rcases plan.rule target.terminalName (sweep.scope key) with ⟨_ | fresh, later⟩
    · rfl
    · dsimp only
      split <;> rfl

theorem rename_kinded (plan : Plan) {key : ScopeKey} {target : Target} {sweep : Sweep}
    (kinded : sweep.renames.Kinded) (names : target.Identified) :
    (plan.rename key target sweep).2.renames.Kinded := by
  rw [rename_renames]
  split
  · exact kinded
  · exact kinded.register names (Target.kind_withTerminalName _ _)

theorem pick_congr {plan other : Plan} (rule : plan.rule = other.rule) {target : Target}
    (same : plan.skips.contains target = other.skips.contains target) :
    plan.pick target = other.pick target := by
  funext scope
  rw [pick, pick, rule, same]

theorem pick_skipped {plan : Plan} {target : Target} (skipped : plan.skips.contains target = true)
    (scope : Scope) :
    (plan.pick target scope).1 = target.terminalName := by
  rw [pick, if_pos skipped]

variable {kept : ScopeKey → Prop} {plan other : Plan} (parallel : Parallel kept plan other) {s t : Sweep}
include parallel

/-- Sweeps that agree on some of their scopes stay in lockstep as long as their plans skip the same targets in
these scopes, whatever names they give elsewhere. -/
theorem rename_agree (agree : Sweep.Agree kept s t) {target : Target} (names : target.Identified) :
    Sweep.Agree kept (plan.rename target.scope target s).2 (other.rename target.scope target t).2 where
  scopes key isKept := by
    rw [rename_lookup, rename_lookup]
    by_cases same : key = target.scope
    · have atKey : s.scope target.scope = t.scope target.scope := by
        rw [Sweep.scope, Sweep.scope, agree.scopes _ (same ▸ isKept)]
      have skips := parallel.skips target names (same ▸ isKept)
      rw [pick_congr parallel.rule skips, skips, atKey, agree.scopes key isKept]
    · simp only [same, false_and, if_false, agree.scopes key isKept]
  bindings := by rw [rename_bindings, rename_bindings, agree.bindings]
  bound := by
    rw [rename_bindings]
    exact agree.bound
  kinded := ⟨plan.rename_kinded agree.kinded.1 names, other.rename_kinded agree.kinded.2 names⟩

/-- In a scope that they agree on, both sweeps give the same name. -/
theorem rename_same (agree : Sweep.Agree kept s t) {target : Target} (names : target.Identified)
    (isKept : kept target.scope) :
    (plan.rename target.scope target s).1 = (other.rename target.scope target t).1 := by
  have atKey : s.scope target.scope = t.scope target.scope := by
    rw [Sweep.scope, Sweep.scope, agree.scopes _ isKept]
  rw [rename_name, rename_name, pick_congr parallel.rule (parallel.skips target names isKept), atKey]

end Plan

namespace Sweep.Agree

variable {kept : ScopeKey → Prop} {s t : Sweep} (agree : Sweep.Agree kept s t)
include agree

theorem openScope (key : ScopeKey) (first : Scope) :
    Sweep.Agree kept (s.openScope key first) (t.openScope key first) where
  scopes other isKept := by
    by_cases same : other = key
    · subst same
      have atKey := agree.scopes other isKept
      cases known : s.scopes.lookup other with
      | none => rw [Plan.openScope_lookup_new first known, Plan.openScope_lookup_new first (atKey ▸ known)]
      | some scope =>
        rw [Plan.openScope_lookup_self first known, Plan.openScope_lookup_self first (atKey ▸ known)]
    · rw [Plan.openScope_lookup_of_ne first same, Plan.openScope_lookup_of_ne first same,
        agree.scopes other isKept]
  bindings := by
    have same (sweep : Sweep) : (sweep.openScope key first).bindings = sweep.bindings := by
      unfold Sweep.openScope
      split <;> rfl
    rw [same, same, agree.bindings]
  bound := by
    have same : (s.openScope key first).bindings = s.bindings := by
      unfold Sweep.openScope
      split <;> rfl
    rw [same]
    exact agree.bound
  kinded := by
    rw [Plan.openScope_renames, Plan.openScope_renames]
    exact agree.kinded

theorem bindInstance (base : ReferenceTarget) {target : InstanceTarget}
    (names : (Target.inst target).Identified) :
    Sweep.Agree kept (s.bindInstance base target) (t.bindInstance base target) where
  scopes := agree.scopes
  bindings := congrArg (Bindings.bindInstance · base target) agree.bindings
  bound := List.forall_mem_cons.mpr ⟨names, agree.bound⟩
  kinded := agree.kinded

theorem bindMemory {base : ReferenceTarget} (names : (Target.reference base).Identified) :
    Sweep.Agree kept (s.bindMemory base) (t.bindMemory base) where
  scopes := agree.scopes
  bindings := congrArg (Bindings.bindMemory · base) agree.bindings
  bound := List.forall_mem_cons.mpr ⟨names, agree.bound⟩
  kinded := agree.kinded

theorem nameOf {target : Target} (names : target.Identified) (name : String) :
    Alongside (fun _ _ => True) (s.nameOf name target) (t.nameOf name target) := by
  obtain ⟨one, atOne⟩ := s.nameOf_total agree.kinded.1 names name
  obtain ⟨two, atTwo⟩ := t.nameOf_total agree.kinded.2 names name
  rw [atOne, atTwo]
  exact .ok trivial

theorem find?_identified {base : ReferenceTarget} {binding : Binding}
    (found : s.bindings.find? base = some binding) :
    binding.Identified := by
  obtain ⟨before, after, same, -⟩ := List.lookup_eq_some_iff.mp found
  exact agree.bound (base.text, binding) (by simp [same])

theorem useName {home : ModuleTarget} (homeOk : (Target.module home).Identified) {name : String}
    (nameOk : isIdentifier name = true) :
    Alongside (fun _ _ => True) (s.useName home name) (t.useName home name) := by
  unfold Sweep.useName
  dsimp only
  rw [← agree.bindings]
  split
  · rename_i found
    exact agree.nameOf (agree.find?_identified found) name
  · exact agree.nameOf (Lockstep.reference_named homeOk nameOk) name

/-- Whether a base is bound, and to what, is the same on both sides; after that every name is found. -/
theorem require {base : ReferenceTarget} : Alongside (fun one two => one = two ∧ one.Identified)
    (s.bindings.require base) (t.bindings.require base) := by
  unfold Bindings.require
  rw [← agree.bindings]
  cases found : s.bindings.find? base with
  | none => exact .error _
  | some binding => exact .ok ⟨rfl, agree.find?_identified found⟩

theorem useField {home : ModuleTarget} {base : Expr} {field : String}
    (names : (Expr.subfield base field).Identified) :
    Alongside (fun _ _ => True) (s.useField home base field) (t.useField home base field) := by
  have fieldOk : isIdentifier field = true := names field (by simp [Expr.names])
  have inMemory {memory : ReferenceTarget} (own : (Target.reference memory).Identified) {port : String}
      (portOk : isIdentifier port = true) : (Target.reference (memory.field port)).Identified := by
    intro name inside
    have each : name = port ∨ name ∈ (Target.reference memory).names := by
      simp only [Target.names, ReferenceTarget.field, List.mem_cons, List.mem_append] at inside ⊢
      grind
    rcases each with rfl | before
    · exact portOk
    · exact own name before
  unfold Sweep.useField
  split
  · refine agree.require.bind ?_
    rintro binding _ ⟨rfl, bound⟩
    cases binding with
    | inst target =>
      have callee : (Target.module target.callee).Identified := by
        simpa [Target.Identified, Target.names, InstanceTarget.callee] using
          And.intro (bound target.circuit (by simp [Target.names]))
            (bound target.ofModule (by simp [Target.names]))
      have portOk := Lockstep.reference_named callee fieldOk
      exact (agree.nameOf bound _).bind fun _ _ _ => (agree.nameOf portOk _).bind fun _ _ _ => .ok trivial
    | memory memory =>
      exact (agree.nameOf bound _).bind fun _ _ _ =>
        (agree.nameOf (inMemory bound fieldOk) _).bind fun _ _ _ => .ok trivial
  · rename_i root port
    have portOk : isIdentifier port = true := names port (by simp [Expr.names])
    refine agree.require.bind ?_
    rintro binding _ ⟨rfl, bound⟩
    cases binding with
    | inst target => exact .error _
    | memory memory =>
      exact (agree.nameOf bound _).bind fun _ _ _ =>
        (agree.nameOf (inMemory bound portOk) _).bind fun _ _ _ => .ok trivial
  · exact .error _
  · exact .error _

omit agree in
mutual

/-- Uses in an expression succeed in one sweep where they succeed in the other, by induction on the
expression. -/
theorem useExpr {home : ModuleTarget} (agree : Sweep.Agree kept s t)
    (homeOk : (Target.module home).Identified) :
    ∀ expr : Expr, expr.Identified → Alongside (fun _ _ => True) (s.useExpr home expr) (t.useExpr home expr)
  | .ref name, names => (agree.useName homeOk (names name List.mem_cons_self)).bind fun _ _ _ => .ok trivial
  | .subfield base field, names => agree.useField names
  | .uintLit .., _ | .sintLit .., _ => .ok trivial
  | .prim op args consts, names => (useExprs agree homeOk args names).bind fun _ _ _ => .ok trivial
  | .mux cond whenTrue whenFalse, names => by
    obtain ⟨early, inFalse⟩ := List.forall_mem_append.mp names
    obtain ⟨inCond, inTrue⟩ := List.forall_mem_append.mp early
    exact (useExpr agree homeOk cond inCond).bind fun _ _ _ =>
        (useExpr agree homeOk whenTrue inTrue).bind fun _ _ _ =>
      (useExpr agree homeOk whenFalse inFalse).bind fun _ _ _ => .ok trivial
  | .validIf cond value, names => by
    obtain ⟨inCond, inValue⟩ := List.forall_mem_append.mp names
    exact (useExpr agree homeOk cond inCond).bind fun _ _ _ =>
        (useExpr agree homeOk value inValue).bind fun _ _ _ =>
      .ok trivial

theorem useExprs {home : ModuleTarget} (agree : Sweep.Agree kept s t)
    (homeOk : (Target.module home).Identified) :
    ∀ exprs : List Expr, (∀ name ∈ Expr.namesAll exprs, isIdentifier name = true) →
      Alongside (fun _ _ => True) (s.useExprs home exprs) (t.useExprs home exprs)
  | [], _ => .ok trivial
  | expr :: rest, names => by
    obtain ⟨inFirst, inRest⟩ := List.forall_mem_append.mp names
    exact (useExpr agree homeOk expr inFirst).bind fun _ _ _ =>
        (useExprs agree homeOk rest inRest).bind fun _ _ _ =>
      .ok trivial

end

end Sweep.Agree

/-- Two plans that differ in what they skip outside the scopes that are kept. -/
def Plan.Parallel.lockstep {kept : ScopeKey → Prop} {plan other : Plan}
    (parallel : Plan.Parallel kept plan other) :
    Lockstep (isIdentifier · = true) plan other where
  together := Sweep.Agree kept
  given target one two := (kept target.scope → one = two) ∧
    (other.skips.contains target = true → two = target.terminalName)
  asked _ _ := True
  used _ _ _ := True
  rename {target s t} names agree := by
    refine ⟨Plan.rename_agree parallel agree names, Plan.rename_same parallel agree names, fun skipped => ?_⟩
    rw [Plan.rename_name, Plan.pick_skipped skipped]
  openScope key first agree := agree.openScope key first
  bindInstance base _ names agree := agree.bindInstance base names
  bindMemory names agree := agree.bindMemory names
  consult names agree := agree.nameOf names _
  use homeOk names agree := agree.useExpr homeOk _ names

end CircuitNames
