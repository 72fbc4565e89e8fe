import CircuitNames.Proofs.SweepRun

namespace CircuitNames

namespace Action

def opens? : Action → Option ScopeKey
  | openScope key _ => some key
  | _ => none

def targetIn? (key : ScopeKey) : Action → Option Target
  | declare own target => if own = key then some target else none
  | _ => none

/-- What an action binds, and under which text. -/
def binding? : Action → Option (String × Binding)
  | bindInstance base target => some (base.text, .inst target)
  | bindMemory base => some (base.text, .memory base)
  | _ => none

end Action

/-- The scopes that a run of actions opens. -/
def opened (actions : List Action) : List ScopeKey := actions.filterMap Action.opens?

/-- The targets declared in one scope. -/
def declaredIn (key : ScopeKey) (actions : List Action) :
    List Target := actions.filterMap (Action.targetIn? key)

/-- Nothing is declared in a scope before it is opened. -/
def Scoped : List ScopeKey → List Action → Prop
  | _, [] => True
  | known, .openScope key _ :: rest => Scoped (key :: known) rest
  | known, .declare key _ :: rest => key ∈ known ∧ Scoped known rest
  | known, _ :: rest => Scoped known rest

theorem Scoped.mono {known more : List ScopeKey} {actions : List Action} (ready : Scoped known actions)
    (within : known ⊆ more) : Scoped more actions := by
  induction actions generalizing known more with
  | nil => exact trivial
  | cons action rest ih =>
    cases action with
    | openScope key first => exact ih ready (List.cons_subset_cons key within)
    | declare key target => exact ⟨within ready.1, ih ready.2 within⟩
    | consult callee => exact ih ready within
    | bindInstance base bound => exact ih ready within
    | bindMemory base => exact ih ready within

/-- Actions may go on in the scopes that earlier ones have opened. -/
theorem Scoped.append {known : List ScopeKey} {first later : List Action} (readyFirst : Scoped known first)
    (readyLater : Scoped (opened first ++ known) later) : Scoped known (first ++ later) := by
  induction first generalizing known with
  | nil => exact readyLater
  | cons action rest ih =>
    cases action with
    | openScope key first =>
      refine ih readyFirst (readyLater.mono ?_)
      exact List.cons_subset.mpr ⟨by simp, by simp [opened, Action.opens?]⟩
    | declare key target => exact ⟨readyFirst.1, ih readyFirst.2 readyLater⟩
    | consult callee => exact ih readyFirst readyLater
    | bindInstance base bound => exact ih readyFirst readyLater
    | bindMemory base => exact ih readyFirst readyLater

theorem Scoped.left {known : List ScopeKey} {first later : List Action}
    (ready : Scoped known (first ++ later)) :
    Scoped known first := by
  induction first generalizing known with
  | nil => exact trivial
  | cons action rest ih =>
    cases action with
    | openScope key first => exact ih ready
    | declare key target => exact ⟨ready.1, ih ready.2⟩
    | consult callee => exact ih ready
    | bindInstance base bound => exact ih ready
    | bindMemory base => exact ih ready

theorem opened_append (first later : List Action) : opened (first ++ later) = opened first ++ opened later :=
  List.filterMap_append

theorem declaredIn_cons {key : ScopeKey} (action : Action) (rest : List Action) :
    declaredIn key (action :: rest) = (action.targetIn? key).toList ++ declaredIn key rest := by
  unfold declaredIn
  rw [List.filterMap_cons]
  cases action.targetIn? key <;> rfl

theorem declaredIn_map {α : Type} (key : ScopeKey) (toTarget : α → Target) (items : List α) :
    declaredIn key (items.map fun item => .declare key (toTarget item)) = items.map toTarget := by
  induction items with
  | nil => rfl
  | cons item rest ih =>
    rw [List.map_cons, declaredIn_cons, ih, Action.targetIn?, if_pos rfl]
    rfl

namespace Plan

variable {plan : Plan} {names : Target → String} {sweep : Sweep} {actions : List Action} {key : ScopeKey}

theorem openScope_lookup_of_ne {other : ScopeKey} (first : Scope) (apart : key ≠ other) :
    (sweep.openScope other first).scopes.lookup key = sweep.scopes.lookup key := by
  unfold Sweep.openScope
  split
  · rfl
  · simp [Sweep.setScope, List.lookup_cons, beq_false_of_ne apart]

theorem openScope_lookup_self {scope : Scope} (first : Scope) (known : sweep.scopes.lookup key = some scope) :
    (sweep.openScope key first).scopes.lookup key = some scope := by
  simp [Sweep.openScope, known]

theorem openScope_lookup_new (first : Scope) (unknown : sweep.scopes.lookup key = none) :
    (sweep.openScope key first).scopes.lookup key = some first := by
  simp [Sweep.openScope, unknown, Sweep.setScope]

/-- A scope that no action opens stays unopened. -/
theorem perform_lookup_none {known : List ScopeKey} (ready : Scoped known actions) (outside : key ∉ known)
    (never : key ∉ opened actions) (unknown : sweep.scopes.lookup key = none) :
    (plan.perform actions sweep).scopes.lookup key = none := by
  induction actions generalizing known sweep with
  | nil => exact unknown
  | cons action rest ih =>
    cases action with
    | openScope other first =>
      have apart : key ≠ other := fun same => never (by simp [opened, Action.opens?, same])
      have later : key ∉ opened rest := by
        intro inside
        refine never ?_
        simp only [opened, Action.opens?, List.filterMap_cons] at inside ⊢
        exact List.mem_cons_of_mem _ inside
      refine ih ready (by simp [apart, outside]) later ?_
      exact (openScope_lookup_of_ne first apart).trans unknown
    | declare other target =>
      have apart : key ≠ other := fun same => outside (same ▸ ready.1)
      exact ih ready.2 outside never ((rename_lookup_of_ne apart).trans unknown)
    | consult callee => exact ih ready outside never unknown
    | bindInstance base bound => exact ih ready outside never unknown
    | bindMemory base => exact ih ready outside never unknown

/-- An action changes a known scope by the names picked there, and opening it again changes nothing. -/
theorem act_lookup {action : Action} {scope : Scope} (known : sweep.scopes.lookup key = some scope) :
    (plan.act sweep action).scopes.lookup key =
      some (plan.pickAll (action.targetIn? key).toList scope).2 := by
  cases action with
  | openScope other first =>
    by_cases same : key = other
    · exact same ▸ openScope_lookup_self first (same ▸ known)
    · exact (openScope_lookup_of_ne first same).trans known
  | declare other target =>
    by_cases same : other = key
    · rw [Action.targetIn?, if_pos same]
      exact same ▸ rename_lookup_self (same ▸ known)
    · rw [Action.targetIn?, if_neg same]
      exact (rename_lookup_of_ne (Ne.symm same)).trans known
  | consult callee => exact known
  | bindInstance base bound => exact known
  | bindMemory base => exact known

theorem map_targetIn {action : Action} {scope : Scope} (given : plan.GivesOne names sweep action)
    (known : sweep.scopes.lookup key = some scope) :
    (action.targetIn? key).toList.map names = (plan.pickAll (action.targetIn? key).toList scope).1 := by
  cases action with
  | declare other target =>
    by_cases same : other = key
    · have atKey : sweep.scope other = scope := by simp [Sweep.scope, same, known]
      have picked : (plan.pick target scope).1 = names target := by rw [← given, rename_name, atKey]
      rw [Action.targetIn?, if_pos same]
      exact congrArg (fun name => [name]) picked.symm
    · rw [Action.targetIn?, if_neg same]
      rfl
  | openScope other first => rfl
  | consult callee => rfl
  | bindInstance base bound => rfl
  | bindMemory base => rfl

/-- A scope that is open goes through its own declarations one after the other, whatever else happens. -/
theorem perform_lookup {scope : Scope} (known : sweep.scopes.lookup key = some scope) :
    (plan.perform actions sweep).scopes.lookup key =
      some (plan.pickAll (declaredIn key actions) scope).2 := by
  induction actions generalizing sweep scope with
  | nil => exact known
  | cons action rest ih =>
    rw [declaredIn_cons, pickAll_append]
    exact ih (act_lookup known)

/-- The names given in a scope are those picked in it in the order of its declarations. -/
theorem map_declaredIn {scope : Scope} (gives : plan.Gives names actions sweep)
    (known : sweep.scopes.lookup key = some scope) :
    (declaredIn key actions).map names = (plan.pickAll (declaredIn key actions) scope).1 := by
  induction actions generalizing sweep scope with
  | nil => rfl
  | cons action rest ih =>
    obtain ⟨given, givesRest⟩ := gives
    rw [declaredIn_cons, pickAll_append, List.map_append, map_targetIn given known,
      ih givesRest (act_lookup known)]

/-- Where a scope is opened for the first time, the names given in it are picked from its first names on. -/
theorem map_declaredIn_opened {known : List ScopeKey} {before inside after : List Action} {first : Scope}
    (ready : Scoped known (before ++ .openScope key first :: (inside ++ after)))
    (once : (opened (before ++ .openScope key first :: (inside ++ after))).Nodup) (outside : key ∉ known)
    (unknown : sweep.scopes.lookup key = none)
    (gives : plan.Gives names (before ++ .openScope key first :: (inside ++ after)) sweep) :
    (declaredIn key inside).map names = (plan.pickAll (declaredIn key inside) first).1 := by
  rw [opened_append] at once
  have never : key ∉ opened before :=
    fun early => (List.nodup_append.mp once).2.2 key early key List.mem_cons_self rfl
  have stillUnknown : (plan.perform before sweep).scopes.lookup key = none :=
    perform_lookup_none ready.left outside never unknown
  obtain ⟨-, -, givesRest⟩ := gives_append.mp gives
  exact map_declaredIn (gives_append.mp givesRest).1 (openScope_lookup_new first stillUnknown)

/-- The bindings record the instances and memories in the order in which they are come upon. -/
theorem perform_bindings :
    (plan.perform actions sweep).bindings.entries =
      (actions.filterMap Action.binding?).reverse ++ sweep.bindings.entries := by
  induction actions generalizing sweep with
  | nil => rfl
  | cons action rest ih =>
    have same : (plan.act sweep action).bindings.entries =
        action.binding?.toList ++ sweep.bindings.entries := by
      cases action with
      | openScope key first =>
        unfold act Sweep.openScope
        dsimp only
        split <;> rfl
      | declare key target =>
        unfold act rename
        dsimp only
        split
        · rfl
        · rcases plan.rule target.terminalName (sweep.scope key) with ⟨_ | fresh, later⟩
          · rfl
          · dsimp only
            split <;> rfl
      | consult callee => rfl
      | bindInstance base bound => rfl
      | bindMemory base => rfl
    rw [perform_cons, ih, same, List.filterMap_cons]
    cases action.binding? <;> simp

end Plan

end CircuitNames
