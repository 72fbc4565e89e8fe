import CircuitNames.Proofs.LedgerNames
import CircuitNames.Proofs.SweepRun

namespace CircuitNames

namespace Action

def target? : Action → Option Target
  | declare _ target => some target
  | _ => none

/-- The target of the module whose name is asked for. -/
def asked? : Action → Option Target
  | consult callee => some (.module callee)
  | _ => none

/-- What the first action asks for is not declared by the later one. -/
def Before (first later : Action) : Prop :=
  ∀ asked target, first.asked? = some asked → later.target? = some target → asked ≠ target

end Action

/-- The targets declared by a run of actions. -/
def declared (actions : List Action) : List Target := actions.filterMap Action.target?

/-- A run of actions in which each target is declared once, and no module is declared after it was asked
for. -/
structure Orderly (actions : List Action) : Prop where
  identified : ∀ target ∈ declared actions, target.Identified
  asked : ∀ target ∈ actions.filterMap Action.asked?, target.Identified
  distinct : (declared actions).Nodup
  before : actions.Pairwise Action.Before

theorem mem_declared_cons {action : Action} {rest : List Action} {target : Target} :
    target ∈ declared (action :: rest) ↔ action.target? = some target ∨ target ∈ declared rest := by
  simp only [declared, List.mem_filterMap, List.mem_cons, or_and_right, exists_or, exists_eq_left]

theorem Orderly.tail {action : Action} {rest : List Action} (orderly : Orderly (action :: rest)) :
    Orderly rest where
  identified target inside := orderly.identified target (mem_declared_cons.mpr (Or.inr inside))
  asked target inside := by
    refine orderly.asked target ?_
    obtain ⟨later, member, asks⟩ := List.mem_filterMap.mp inside
    exact List.mem_filterMap.mpr ⟨later, List.mem_cons_of_mem _ member, asks⟩
  distinct := orderly.distinct.sublist ((List.sublist_cons_self action rest).filterMap Action.target?)
  before := (List.pairwise_cons.mp orderly.before).2

/-- The first of the targets is none of the later ones. -/
theorem Orderly.apart {action : Action} {rest : List Action} (orderly : Orderly (action :: rest))
    {target : Target} (declares : action.target? = some target) :
    ∀ other ∈ declared rest, target.text ≠ other.text := by
  have distinct := orderly.distinct
  rw [declared, List.filterMap_cons_some declares, List.nodup_cons] at distinct
  intro other inside same
  have own := orderly.identified target (mem_declared_cons.mpr (Or.inl declares))
  have others := orderly.identified other (mem_declared_cons.mpr (Or.inr inside))
  exact distinct.1 (Target.eq_of_text_eq own others same ▸ inside)

namespace Plan

variable {plan : Plan} {names : Target → String} {sweep : Sweep} {actions : List Action}

/-- A name that changes is recorded, and nothing else is. -/
theorem rename_renames (key : ScopeKey) (target : Target) (sweep : Sweep) :
    (plan.rename key target sweep).2.renames =
      if (plan.rename key target sweep).1 = target.terminalName then sweep.renames
      else sweep.renames.register target (target.withTerminalName (plan.rename key target sweep).1) := by
  unfold rename
  dsimp only
  split
  · simp
  · rcases plan.rule target.terminalName (sweep.scope key) with ⟨_ | fresh, later⟩
    · simp [Sweep.setScope]
    · dsimp only
      split <;> simp [Sweep.setScope]

theorem openScope_renames (key : ScopeKey) (first : Scope) :
    (sweep.openScope key first).renames = sweep.renames := by
  unfold Sweep.openScope
  split <;> rfl

theorem act_get?_of_ne {action : Action} {target : Target}
    (apart : ∀ other, action.target? = some other → target.text ≠ other.text) :
    (plan.act sweep action).renames.get? target = sweep.renames.get? target := by
  cases action with
  | openScope key first => exact congrArg (·.get? target) (openScope_renames key first)
  | declare key other =>
    have different := apart other rfl
    change (plan.rename key other sweep).2.renames.get? target = _
    rw [rename_renames]
    split
    · rfl
    · exact Ledger.get?_register_of_ne different
  | consult callee => rfl
  | bindInstance base bound => rfl
  | bindMemory base => rfl

theorem perform_get?_of_ne {target : Target} (apart : ∀ other ∈ declared actions, target.text ≠ other.text) :
    (plan.perform actions sweep).renames.get? target = sweep.renames.get? target := by
  induction actions generalizing sweep with
  | nil => rfl
  | cons action rest ih =>
    have apartRest := fun other inside => apart other (mem_declared_cons.mpr (Or.inr inside))
    have apartFirst := fun other declares => apart other (mem_declared_cons.mpr (Or.inl declares))
    rw [perform_cons, ih apartRest, act_get?_of_ne apartFirst]

/-- Only its own declaration gives a target another name. -/
theorem perform_name_of_ne {target : Target} (apart : ∀ other ∈ declared actions, target.text ≠ other.text) :
    (plan.perform actions sweep).renames.name target = sweep.renames.name target := by
  simp only [Ledger.name, Ledger.resolve?, perform_get?_of_ne apart]

/-- The name a declaration gets is the one it has by the renames from then on. -/
theorem rename_name_recorded {key : ScopeKey} {target : Target}
    (absent : sweep.renames.contains target = false) :
    (plan.rename key target sweep).2.renames.name target = (plan.rename key target sweep).1 := by
  rw [rename_renames]
  split <;> rename_i same
  · rw [Ledger.name_of_not_contains absent, same]
  · exact Ledger.name_register_self absent

/-- What holds of the renames before an action holds after it if it survives the record of a name. -/
theorem act_renames {P : Ledger → Prop} {action : Action} (start : P sweep.renames)
    (registers : ∀ key target, action.target? = some target →
      P (sweep.renames.register target (target.withTerminalName (plan.rename key target sweep).1))) :
    P (plan.act sweep action).renames := by
  cases action with
  | openScope key first =>
    have same : (plan.act sweep (.openScope key first)).renames = sweep.renames := openScope_renames key first
    exact same ▸ start
  | declare key target =>
    change P (plan.rename key target sweep).2.renames
    rw [rename_renames]
    split
    · exact start
    · exact registers key target rfl
  | consult callee => exact start
  | bindInstance base bound => exact start
  | bindMemory base => exact start

theorem act_plain {action : Action} (plain : sweep.renames.Plain)
    (fresh : ∀ target, action.target? = some target →
      target.Identified ∧ sweep.renames.contains target = false) :
    (plan.act sweep action).renames.Plain := by
  refine act_renames plain fun key target declares => ?_
  obtain ⟨identified, absent⟩ := fresh target declares
  exact plain.register identified absent _

/-- What is declared later is not recorded yet. -/
theorem act_absent {action : Action} {rest : List Action} (orderly : Orderly (action :: rest))
    (absent : ∀ target ∈ declared (action :: rest), sweep.renames.contains target = false) :
    ∀ target ∈ declared rest, (plan.act sweep action).renames.contains target = false := by
  intro target inside
  rw [← Ledger.get?_eq_none_iff, act_get?_of_ne fun other declares =>
    (orderly.apart declares target inside).symm]
  exact Ledger.get?_eq_none_iff.mpr (absent target (mem_declared_cons.mpr (Or.inr inside)))

/-- What survives the record of each declared name, not recorded so far, survives the whole run. -/
theorem perform_renames {P : Ledger → Prop} (orderly : Orderly actions) (start : P sweep.renames)
    (absent : ∀ target ∈ declared actions, sweep.renames.contains target = false)
    (registers : ∀ target ∈ declared actions, ∀ key (before : Sweep), P before.renames →
      before.renames.contains target = false →
      P (before.renames.register target (target.withTerminalName (plan.rename key target before).1))) :
    P (plan.perform actions sweep).renames := by
  induction actions generalizing sweep with
  | nil => exact start
  | cons action rest ih =>
    have next : P (plan.act sweep action).renames := by
      refine act_renames start fun key target declares => ?_
      have first : target ∈ declared (action :: rest) := mem_declared_cons.mpr (Or.inl declares)
      exact registers target first key sweep start (absent target first)
    have later := fun target inside => registers target (mem_declared_cons.mpr (Or.inr inside))
    exact ih orderly.tail next (act_absent orderly absent) later

/-- Actions that name new things, each once, leave the ledger plain. -/
theorem perform_plain (orderly : Orderly actions) (plain : sweep.renames.Plain)
    (absent : ∀ target ∈ declared actions, sweep.renames.contains target = false) :
    (plan.perform actions sweep).renames.Plain := by
  refine perform_renames orderly plain absent fun target inside key before plain unrecorded => ?_
  exact plain.register (orderly.identified target inside) unrecorded _

/-- The names that an orderly run of actions records in the end are the ones it gave on the way: a
declaration is made once, and what is asked for is settled when it is asked for. -/
theorem gives_perform (orderly : Orderly actions) (plain : sweep.renames.Plain)
    (absent : ∀ target ∈ declared actions, sweep.renames.contains target = false) :
    plan.Gives (plan.perform actions sweep).renames.name actions sweep := by
  induction actions generalizing sweep with
  | nil => exact trivial
  | cons action rest ih =>
    have plainNext : (plan.act sweep action).renames.Plain := by
      refine act_plain plain fun target declares => ?_
      have first : target ∈ declared (action :: rest) := mem_declared_cons.mpr (Or.inl declares)
      exact ⟨orderly.identified target first, absent target first⟩
    refine ⟨?_, ih orderly.tail plainNext (act_absent orderly absent)⟩
    cases action with
    | openScope key first => exact trivial
    | declare key target =>
      have first := absent target (mem_declared_cons.mpr (Or.inl rfl))
      have later : (plan.perform rest (plan.act sweep (.declare key target))).renames.name target = _ :=
        perform_name_of_ne (orderly.apart rfl)
      exact (rename_name_recorded first).symm.trans later.symm
    | consult callee =>
      have identified := orderly.asked (.module callee) (List.mem_filterMap.mpr ⟨_, List.mem_cons_self, rfl⟩)
      have settled : (plan.perform rest sweep).renames.name (.module callee) =
          sweep.renames.name (.module callee) := by
        refine perform_name_of_ne fun other inside same => ?_
        have others := orderly.identified other (mem_declared_cons.mpr (Or.inr inside))
        obtain ⟨later, member, declares⟩ := List.mem_filterMap.mp inside
        have apart := (List.pairwise_cons.mp orderly.before).1 later member _ other rfl declares
        exact apart (Target.eq_of_text_eq identified others same)
      exact (Sweep.nameOf_eq plain identified).trans (congrArg Except.ok settled.symm)
    | bindInstance base bound => exact trivial
    | bindMemory base => exact trivial

end Plan

end CircuitNames
