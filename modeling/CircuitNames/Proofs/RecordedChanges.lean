import CircuitNames.Proofs.Entities
import CircuitNames.Proofs.PassResults

namespace CircuitNames

/-- The record of a target that is called by another name from now on. -/
def Target.change (target : Target) (name : String) : Option Ledger.Entry :=
  if name = target.terminalName then none else some ⟨target, [target.withTerminalName name]⟩

theorem Target.isSome_change (target : Target) (name : String) :
    (target.change name).isSome = decide (name ≠ target.terminalName) := by
  unfold change
  split <;> simp [*]

/-- The entries of changes are under the targets that changed, in their order. -/
theorem Target.keys_changes_sublist (names : Target → String) (targets : List Target) :
    ((targets.filterMap fun target => target.change (names target)).map Ledger.Entry.key).Sublist
      (targets.map Target.text) := by
  induction targets with
  | nil => exact .slnil
  | cons target rest ih =>
    rw [List.filterMap_cons, change]
    split
    · rename_i kept
      split at kept
      · exact ih.cons _
      · cases kept
    · rename_i entry changed
      split at changed
      · cases changed
      · obtain rfl := Option.some.inj changed
        exact ih.cons_cons _

/-- The entities of a circuit that have other names in a second one, each with the change of its target. -/
def Circuit.changes (circuit out : Circuit) : List Ledger.Entry :=
  circuit.entities.filterMap fun entity => (out.nameAt? entity.place).bind entity.target.change

namespace Plan

variable {plan : Plan} {sweep : Sweep} {actions : List Action}

theorem act_entries {action : Action}
    (absent : ∀ target, action.target? = some target → sweep.renames.contains target = false) :
    (plan.act sweep action).renames.entries = sweep.renames.entries ++
      (action.target?.bind fun target =>
        target.change ((plan.act sweep action).renames.name target)).toList := by
  cases action with
  | openScope key first =>
    have same : (plan.act sweep (.openScope key first)).renames = sweep.renames := openScope_renames key first
    simp [Action.target?, same]
  | declare key target =>
    change (plan.rename key target sweep).2.renames.entries =
      _ ++ (target.change ((plan.rename key target sweep).2.renames.name target)).toList
    rw [rename_name_recorded (absent target rfl), rename_renames, Target.change]
    split
    · simp
    · rw [Ledger.entries_register_new (absent target rfl)]
      rfl
  | consult callee => simp [Action.target?, act]
  | bindInstance base bound => simp [Action.target?, act, Sweep.bindInstance]
  | bindMemory base => simp [Action.target?, act, Sweep.bindMemory]

/-- An orderly run of actions adds to the renames one entry for each name that it changes, and no other. -/
theorem perform_entries (orderly : Orderly actions)
    (absent : ∀ target ∈ declared actions, sweep.renames.contains target = false) :
    (plan.perform actions sweep).renames.entries = sweep.renames.entries ++
      (declared actions).filterMap fun target =>
        target.change ((plan.perform actions sweep).renames.name target) := by
  induction actions generalizing sweep with
  | nil => simp [declared]
  | cons action rest ih =>
    have first : ∀ target, action.target? = some target → sweep.renames.contains target = false :=
      fun target declares => absent target (mem_declared_cons.mpr (Or.inl declares))
    rw [perform_cons, ih orderly.tail (act_absent orderly absent), act_entries first, List.append_assoc]
    congr 1
    cases declares : action.target? with
    | none => simp [declared, declares]
    | some target =>
      -- what a declaration is called after it is what it is called in the end
      have settled : (plan.perform rest (plan.act sweep action)).renames.name target =
          (plan.act sweep action).renames.name target := perform_name_of_ne (orderly.apart declares)
      have splits : declared (action :: rest) = target :: declared rest := List.filterMap_cons_some declares
      rw [splits, List.filterMap_cons, settled, Option.bind_some]
      cases target.change ((plan.act sweep action).renames.name target) <;> rfl

/-- Every declared name was picked in some scope. -/
theorem Gives.picked {names : Target → String} (gives : plan.Gives names actions sweep) {target : Target}
    (inside : target ∈ declared actions) : ∃ scope, names target = (plan.pick target scope).1 := by
  induction actions generalizing sweep with
  | nil => cases inside
  | cons action rest ih =>
    obtain ⟨first, later⟩ := gives
    rcases mem_declared_cons.mp inside with declares | inside
    · cases action with
      | declare key other =>
        obtain rfl := Option.some.inj declares
        exact ⟨sweep.scope key, first.symm.trans (rename_name key sweep)⟩
      | openScope key first => cases declares
      | consult callee => cases declares
      | bindInstance base bound => cases declares
      | bindMemory base => cases declares
    · exact ih later inside

end Plan

/-- A name that is handed out is no shorter than its base. -/
theorem Scope.length_le_newName (scope : Scope) (base : String) :
    base.length ≤ (scope.newName base).1.length := by
  unfold newName
  split
  · simp [numbered, toString, String.length_append, Nat.add_assoc]
  · exact Nat.le_refl _

/-- With a text in front of every name, just the names that are not skipped change. -/
theorem Plan.pick_prepend_eq_iff {skips : SkipSet} {front : String} (text : front ≠ "") (target : Target)
    (scope : Scope) :
    (Plan.pick ⟨.prepend front, skips⟩ target scope).1 = target.terminalName ↔
      skips.contains target = true := by
  have longer : ((scope.newName (front ++ target.terminalName)).1 ≠ target.terminalName) := by
    intro same
    have bound := scope.length_le_newName (front ++ target.terminalName)
    have positive : front.length ≠ 0 := fun zero => text (String.length_eq_zero_iff.mp zero)
    rw [same, String.length_append] at bound
    omega
  simp only [pick, Rule.prepend, if_neg longer]
  split <;> simp [*]

/-- The ledger of a sweep has an entry for each target whose name was changed, in the order of the
declarations. -/
theorem Plan.sweep_entries {plan : Plan} {circuit : Circuit} {order : List Module}
    (ready : circuit.Ready order) :
    (plan.sweep circuit order).renames.entries =
      (declared (circuit.actions order)).filterMap fun target =>
        target.change (plan.naming circuit order target) :=
  perform_entries (Circuit.actions_orderly ready) fun _ _ => rfl

theorem Plan.sweep_keys_nodup {plan : Plan} {circuit : Circuit} {order : List Module}
    (ready : circuit.Ready order) :
    ((plan.sweep circuit order).renames.entries.map Ledger.Entry.key).Nodup := by
  rw [sweep_entries ready]
  refine List.Nodup.sublist (Target.keys_changes_sublist _ _) ?_
  refine List.Nodup.map_on (fun target here other there same => ?_)
    (Circuit.declared_nodup ready.distinct ready.ordered)
  have names := Circuit.declared_identified ready.identified ready.ordered
  exact Target.eq_of_text_eq (names target here) (names other there) same

/-- The ledger of a single pass is the difference between the circuit before it and the circuit after it. -/
theorem Plan.entries_perm_changes {plan : Plan} {circuit out : Circuit} {order : List Module}
    (ready : circuit.Ready order) (all : order.Perm circuit.modules)
    (renamed : Renaming (plan.naming circuit order) circuit out) :
    (plan.sweep circuit order).renames.entries.Perm (circuit.changes out) := by
  have changes : circuit.changes out =
      (circuit.entities.map Entity.target).filterMap fun target =>
        target.change (plan.naming circuit order target) := by
    rw [List.filterMap_map]
    refine List.filterMap_congr fun entity inside => ?_
    rw [renamed.nameAt?_of_mem_entities inside]
    rfl
  rw [sweep_entries ready, changes, Circuit.declared_actions, Circuit.map_entities]
  exact ((all.flatMap_right (Module.targets circuit.main)).cons _).filterMap _

/-- The ledger of a pass is exactly the difference that it makes. Everything declared stands in the result;
the entries are, in some order, those that have another name there, each under its own target and with that
target under its new name. So there are as many entries as names that changed, and with a text in front of
every name as there are entities that are not skipped. -/
theorem Pass.run_records_difference {spec : RuleSpec} {circuit out : Circuit} {ledger : Ledger}
    {skips : SkipSet} (decoded : circuit.Decoded) (distinct : circuit.Distinct)
    (unskipped : skips.contains (.circuit circuit.main) = false)
    (run : (Pass.ofSpec spec).run circuit .empty skips = .ok (out, ledger)) :
    (∀ entity ∈ circuit.entities, ∃ name, out.nameAt? entity.place = some name) ∧
    ledger.entries.Perm (circuit.changes out) ∧ (ledger.entries.map Ledger.Entry.key).Nodup ∧
    ledger.size =
      (circuit.entities.filter fun entity => out.nameAt? entity.place ≠ circuit.nameAt? entity.place).length ∧
    ∀ front, spec = .prepend front → front ≠ "" →
      ledger.size = (circuit.entities.filter fun entity => !skips.contains entity.target).length := by
  obtain ⟨renames, changed, kept⟩ := (Pass.run_eq_ok unskipped).mp run
  obtain rfl := Except.ok.inj ((Ledger.compose_empty renames).symm.trans kept)
  obtain ⟨order, ordered⟩ := Plan.renameCircuit_order changed
  have ready := decoded.ready distinct.inside ordered
  have all := Circuit.leafToRoot_perm ordered
  let plan : Plan := ⟨spec.rule, skips⟩
  have renamed := plan.renameCircuit_renaming ready all ordered changed
  obtain ⟨-, rfl, -⟩ := (plan.renameCircuit_eq_ok ready all ordered).mp changed
  have difference := Plan.entries_perm_changes ready all renamed
  have named := fun entity (inside : entity ∈ circuit.entities) => renamed.nameAt?_of_mem_entities inside
  -- Entries are counted by the entities whose names changed, however that is decided.
  have counted (selects : Entity → Bool)
      (same : ∀ entity ∈ circuit.entities,
        decide (plan.naming circuit order entity.target ≠ entity.target.terminalName) = selects entity) :
      (plan.sweep circuit order).renames.size = (circuit.entities.filter selects).length := by
    rw [Ledger.size, difference.length_eq, Circuit.changes, List.length_filterMap_eq_countP,
      ← List.countP_eq_length_filter]
    refine List.countP_congr fun entity inside => ?_
    rw [named entity inside, Option.bind_some, Target.isSome_change, same entity inside]
  refine ⟨fun entity inside => ⟨_, named entity inside⟩, difference, Plan.sweep_keys_nodup ready,
    counted _ ?_, ?_⟩
  · intro entity inside
    rw [named entity inside, Circuit.nameAt?_of_mem_entities inside]
    simp
  · rintro front rfl text
    refine counted _ fun entity inside => ?_
    have isDeclared : entity.target ∈ declared (circuit.actions order) := by
      rw [Circuit.declared_actions, ((all.flatMap_right _).cons _).mem_iff, ← Circuit.map_entities]
      exact List.mem_map_of_mem inside
    obtain ⟨scope, picked⟩ := (plan.naming_gives ready).picked isDeclared
    have kept : (plan.pick entity.target scope).1 = entity.target.terminalName ↔
        skips.contains entity.target = true :=
      Plan.pick_prepend_eq_iff text entity.target scope
    rw [picked, Bool.eq_iff_iff]
    simpa using not_congr kept

open Circuit in
theorem Pass.run_sample_difference :
    let skips : SkipSet := ⟨[.module ⟨"Top", "Sub"⟩]⟩
    ∃ out ledger, (Pass.ofSpec (.prepend "p_")).run Sample.circuit .empty skips = .ok (out, ledger) ∧
      ledger.entries.Perm (Sample.circuit.changes out) ∧ ledger.size = 11 := by
  intro skips
  have succeeds : ((Pass.ofSpec (.prepend "p_")).run Sample.circuit .empty skips).toOption.isSome = true := by
    decide +kernel
  obtain ⟨⟨out, ledger⟩, ran⟩ := Option.isSome_iff_exists.mp succeeds
  have run := toOption_eq_some.mp ran
  have unskipped : skips.contains (.circuit Sample.circuit.main) = false := by decide +kernel
  obtain ⟨-, difference, -, -, counted⟩ :=
    Pass.run_records_difference Sample.decoded Sample.distinct unskipped run
  exact ⟨out, ledger, run, difference, (counted "p_" rfl (by decide)).trans (by decide +kernel)⟩

end CircuitNames
