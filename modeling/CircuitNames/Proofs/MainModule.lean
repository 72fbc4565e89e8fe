import CircuitNames.Proofs.CircuitSweep
import CircuitNames.Proofs.DecodedCircuits
import CircuitNames.Proofs.LaterScopes
import CircuitNames.Proofs.PassRun

namespace CircuitNames

namespace Plan

variable {plan : Plan} {circuit : String} {sweep after : Sweep} {scope : Scope}
  (known : sweep.scopes.lookup .modules = some scope)
include known

/-- Whatever else happens in a module, it gets the name picked for it among the modules, and the next module
goes on from there. -/
theorem declareModule_name {module result : Module}
    (run : plan.declareModule circuit module sweep = .ok (result, after)) :
    result.name = (plan.pick (.module ⟨circuit, module.name⟩) scope).1 := by
  cases module with
  | external module =>
    obtain ⟨fresh, _, declared, run⟩ := run_bind_eq_ok.mp run
    obtain ⟨rfl, -⟩ := declare_after declared
    obtain ⟨rfl, -⟩ := run_pure_eq_ok.mp run
    exact (rename_name .modules sweep).trans (by rw [Sweep.scope, known]; rfl)
  | regular module =>
    obtain ⟨_, _, opens, run⟩ := run_bind_eq_ok.mp run
    cases opens
    obtain ⟨fresh, _, declared, run⟩ := run_bind_eq_ok.mp run
    obtain ⟨rfl, -⟩ := declare_after declared
    obtain ⟨_, _, _, run⟩ := run_bind_eq_ok.mp run
    obtain ⟨_, _, _, run⟩ := run_bind_eq_ok.mp run
    obtain ⟨rfl, -⟩ := run_pure_eq_ok.mp run
    have apart : ScopeKey.modules ≠ .inside (ModuleTarget.mk circuit module.name).text := ScopeKey.noConfusion
    have stillKnown := (openScope_lookup_of_ne (Scope.ofModule module) apart).trans known
    exact (rename_name .modules _).trans (by rw [Sweep.scope, stillKnown]; rfl)

theorem renameModule_name {module result : Module}
    (run : plan.renameModule circuit module sweep = .ok (result, after)) :
    result.name = (plan.pick (.module ⟨circuit, module.name⟩) scope).1 ∧
      after.scopes.lookup .modules = some (plan.pick (.module ⟨circuit, module.name⟩) scope).2 := by
  obtain ⟨⟨declared, between⟩, atDeclared, run⟩ := bind_eq_ok.mp run
  obtain ⟨used, atUsed, run⟩ := bind_eq_ok.mp run
  obtain ⟨rfl, rfl⟩ := Prod.mk.inj (Except.ok.inj run)
  constructor
  · have sameName : used.name = declared.name := by
      cases declared with
      | external module => rw [← Except.ok.inj atUsed]
      | regular module =>
        obtain ⟨body, _, built⟩ := bind_eq_ok.mp atUsed
        rw [← Except.ok.inj built]
        rfl
    exact sameName.trans (declareModule_name known atDeclared)
  · rw [declareModule_after atDeclared, perform_lookup known, Module.declaredIn_modules]
    rfl

/-- So the names of the modules after a run are what one scope picks for them, in their order. -/
theorem renameModules_names {modules : List Module} {renamed out : List (String × Module)}
    (run : plan.renameModules circuit modules renamed sweep = .ok (out, after)) :
    ∃ entries : List (String × Module), out = entries.reverse ++ renamed ∧
      entries.map (fun entry => (entry.1, entry.2.name)) =
      (modules.map Module.name).zip
        (plan.pickAll (modules.map fun module => .module ⟨circuit, module.name⟩) scope).1 := by
  induction modules generalizing sweep scope renamed with
  | nil =>
    obtain ⟨rfl, -⟩ := Prod.mk.inj (Except.ok.inj run)
    exact ⟨[], rfl, rfl⟩
  | cons module rest ih =>
    obtain ⟨⟨result, between⟩, first, later⟩ := bind_eq_ok.mp run
    obtain ⟨named, stillKnown⟩ := renameModule_name known first
    obtain ⟨entries, rfl, zipped⟩ := ih stillKnown later
    refine ⟨(module.name, result) :: entries, by simp, ?_⟩
    rw [List.map_cons, zipped, named]
    rfl

end Plan

theorem exists_map_eq {keys values : List String} (distinct : keys.Nodup)
    (lengths : keys.length = values.length) :
    ∃ f : String → String, keys.map f = values := by
  induction keys generalizing values with
  | nil => exact ⟨id, (List.eq_nil_of_length_eq_zero lengths.symm).symm⟩
  | cons key rest ih =>
    obtain ⟨value, later, rfl⟩ := List.exists_of_length_succ values lengths.symm
    obtain ⟨outside, distinctRest⟩ := List.nodup_cons.mp distinct
    obtain ⟨f, rfl⟩ := ih distinctRest (Nat.succ.inj lengths)
    refine ⟨Function.update f key value, ?_⟩
    rw [List.map_cons, Function.update_self]
    congr 1
    exact List.map_congr_left fun other inside =>
      Function.update_of_ne (ne_of_mem_of_not_mem inside outside) ..

/-- The name of the circuit and the names of its modules, as they come out of a run. -/
theorem Plan.renameCircuit_names {plan : Plan} {circuit out : Circuit} {order : List Module}
    (distinct : (order.map Module.name).Nodup) {orderOf : Circuit → Except Fault (List Module)}
    (asked : orderOf circuit = .ok order) {renames : Ledger}
    (run : plan.renameCircuit orderOf circuit = .ok (out, renames)) :
    out.main = (plan.pick (.circuit circuit.main) (.ofCircuit circuit)).1 ∧ ∃ names : String → String,
      order.map (fun module => names module.name) =
        (plan.pickAll (order.map fun module => .module ⟨circuit.main, module.name⟩) (.ofCircuit circuit)).1 ∧
      List.Forall₂ (fun module result => result.name = names module.name) circuit.modules out.modules := by
  obtain ⟨sameOrder, givesOrder, run⟩ := bind_eq_ok.mp run
  obtain rfl := Except.ok.inj (asked.symm.trans givesOrder)
  obtain ⟨⟨renamed, finished⟩, followed, run⟩ := bind_eq_ok.mp run
  obtain ⟨modules, found, result⟩ := bind_eq_ok.mp run
  obtain ⟨rfl, -⟩ := Prod.mk.inj (Except.ok.inj result)
  have opened : (plan.rename .circuit (.circuit circuit.main) (.start circuit)).2.scopes.lookup .modules =
      some (.ofCircuit circuit) := rename_lookup_of_ne ScopeKey.noConfusion
  obtain ⟨entries, rfl, zipped⟩ := renameModules_names opened followed
  let picked :=
    (plan.pickAll (order.map fun module => .module ⟨circuit.main, module.name⟩) (.ofCircuit circuit)).1
  have lengths : (order.map Module.name).length = picked.length := by simp [picked, length_pickAll]
  obtain ⟨names, given⟩ := exists_map_eq distinct lengths
  have sameMap := List.map_map.symm.trans given
  refine ⟨rename_name .circuit (.start circuit), names, sameMap, ?_⟩
  refine (mapM_eq_ok.mp found).imp fun module result atModule => ?_
  rw [List.append_nil] at atModule
  split at atModule
  · rename_i looked
    obtain rfl := Except.ok.inj atModule
    obtain ⟨before, after, splits, -⟩ := List.lookup_eq_some_iff.mp looked
    have inside : (module.name, _) ∈ entries :=
      List.mem_reverse.mp (splits ▸ List.mem_append_right _ List.mem_cons_self)
    have paired := List.mem_map_of_mem inside (f := fun entry => (entry.1, entry.2.name))
    rw [zipped] at paired
    change _ ∈ (order.map Module.name).zip picked at paired
    rw [← given, ← List.map_prod_left_eq_zip, List.mem_map] at paired
    obtain ⟨key, _, same⟩ := paired
    obtain ⟨rfl, named⟩ := Prod.mk.inj same
    exact named.symm
  · cases atModule

/-- The main module has the name of the circuit in the result as well. -/
def Circuit.KeepsMain (circuit out : Circuit) : Prop :=
  ∃ (place : Nat) (main renamed : Module), circuit.modules[place]? = some main ∧ main.name = circuit.main ∧
    out.modules[place]? = some renamed ∧ renamed.name = out.main

section Places
variable {circuit out : Circuit} {names : String → String}
  (each : List.Forall₂ (fun module result => result.name = names module.name) circuit.modules out.modules)
include each

/-- The circuit keeps its main module just when that module's new name is the new name of the circuit. -/
theorem Circuit.keepsMain_iff {main : Module} (member : main ∈ circuit.modules)
    (isMain : main.name = circuit.main) :
    circuit.KeepsMain out ↔ names main.name = out.main := by
  constructor
  · rintro ⟨place, other, renamed, atPlace, otherIsMain, atRenamed, same⟩
    obtain ⟨result, atResult, named⟩ := getElem?_of_forall₂_left each atPlace
    obtain rfl := Option.some.inj (atRenamed.symm.trans atResult)
    rw [isMain, ← otherIsMain, ← named, same]
  · intro same
    obtain ⟨place, atPlace⟩ := List.getElem?_of_mem member
    obtain ⟨result, atResult, named⟩ := getElem?_of_forall₂_left each atPlace
    exact ⟨place, main, result, atPlace, isMain, atResult, named.trans same⟩

/-- What no module of some gets in its place is not among their names. -/
theorem forall_name_ne_iff {before : List Module} (members : ∀ module ∈ before, module ∈ circuit.modules)
    {name : String} :
    (∀ (place : Nat) (module renamed : Module), module ∈ before → circuit.modules[place]? = some module →
      out.modules[place]? = some renamed → renamed.name ≠ name) ↔
      name ∉ before.map fun module => names module.name := by
  constructor
  · intro apart inside
    obtain ⟨module, member, same⟩ := List.mem_map.mp inside
    obtain ⟨place, atPlace⟩ := List.getElem?_of_mem (members module member)
    obtain ⟨result, atResult, named⟩ := getElem?_of_forall₂_left each atPlace
    exact apart place module result member atPlace atResult (named.trans same)
  · intro outside place module renamed member atPlace atRenamed same
    obtain ⟨result, atResult, named⟩ := getElem?_of_forall₂_left each atPlace
    obtain rfl := Option.some.inj (atRenamed.symm.trans atResult)
    exact outside (List.mem_map.mpr ⟨module, member, named.symm.trans same⟩)

end Places

/-- The circuit gets its name before all modules get theirs, and the main module gets the same one unless a
module that comes before it took that name. -/
theorem Plan.renameCircuit_main {plan : Plan} (steady : plan.rule.Steady) {circuit out : Circuit}
    {before after : List Module} {main : Module} (isMain : main.name = circuit.main)
    (ordered : Hierarchy.Ordered circuit (before ++ main :: after))
    (unskipped : plan.skips.contains (.circuit circuit.main) = false)
    (mainUnskipped : plan.skips.contains (.module ⟨circuit.main, circuit.main⟩) = false)
    {orderOf : Circuit → Except Fault (List Module)} (asked : orderOf circuit = .ok (before ++ main :: after))
    {renames : Ledger} (run : plan.renameCircuit orderOf circuit = .ok (out, renames)) :
    circuit.KeepsMain out ↔ ∀ (place : Nat) (module renamed : Module), module ∈ before →
      circuit.modules[place]? = some module → out.modules[place]? = some renamed →
        renamed.name ≠ out.main := by
  obtain ⟨sameMain, names, given, each⟩ := renameCircuit_names ordered.nodup asked run
  -- The modules are named in a scope that begins like that of the circuit, so only a module before the main
  -- one can have taken the name.
  let scope := Scope.ofCircuit circuit
  let target (module : Module) : Target := .module ⟨circuit.main, module.name⟩
  have terminal : ((before ++ main :: after).map target).map Target.terminalName =
      (before ++ main :: after).map Module.name := by simp [target, Target.terminalName, Function.comp_def]
  have distinct : ((before ++ main :: after).map fun module => names module.name).Nodup := by
    rw [given]
    refine pickAll_nodup steady.fair (terminal ▸ ordered.nodup) fun other inside => ?_
    obtain ⟨module, member, rfl⟩ := List.mem_map.mp inside
    exact Scope.mem_ofNames.mpr (List.mem_map_of_mem (ordered.members module member))
  have picks : before.map (fun module => names module.name) = (plan.pickAll (before.map target) scope).1 ∧
      names main.name = (plan.pick (target main) (plan.pickAll (before.map target) scope).2).1 := by
    rw [List.map_append, List.map_append, List.map_cons, List.map_cons, pickAll_append] at given
    obtain ⟨early, later⟩ := List.append_inj given (by simp [length_pickAll])
    exact ⟨early, (List.cons.inj later).1⟩
  have members : ∀ module ∈ before, module ∈ circuit.modules :=
    fun module inside => ordered.members module (List.mem_append_left _ inside)
  have isModule := ordered.members main (List.mem_append_right _ List.mem_cons_self)
  rw [Circuit.keepsMain_iff each isModule isMain, forall_name_ne_iff each members]
  constructor
  · intro same inside
    rw [List.map_append, List.nodup_append] at distinct
    exact distinct.2.2 out.main inside (names main.name) List.mem_cons_self same.symm
  · intro free
    rw [picks.1, sameMain] at free
    rw [picks.2, sameMain]
    have sameName : (Target.circuit circuit.main).terminalName = (target main).terminalName := isMain.symm
    have sameTarget : target main = .module ⟨circuit.main, circuit.main⟩ := by simp [target, isMain]
    have alsoUnskipped := sameTarget ▸ mainUnskipped
    exact pick_again steady sameName unskipped alsoUnskipped (Scope.counted_ofNames _) free

/-- The main module stays the main module of the result just when no module that comes before it in the order
takes the name of the result. It always comes after the modules it instantiates, so one of them may. -/
theorem Pass.run_keepsMain_iff {circuit out : Circuit} {ledger result : Ledger} {spec : RuleSpec}
    {skips : SkipSet} (unskipped : skips.contains (.circuit circuit.main) = false)
    (mainUnskipped : skips.contains (.module ⟨circuit.main, circuit.main⟩) = false)
    (run : (Pass.ofSpec spec).run circuit ledger skips = .ok (out, result)) :
    ∃ before main after, circuit.leafToRoot = .ok (before ++ main :: after) ∧ main.name = circuit.main ∧
      (circuit.KeepsMain out ↔ ∀ (place : Nat) (module renamed : Module), module ∈ before →
        circuit.modules[place]? = some module → out.modules[place]? = some renamed →
          renamed.name ≠ out.main) := by
  obtain ⟨renames, changed, -⟩ := (Pass.run_eq_ok unskipped).mp run
  obtain ⟨order, asked⟩ := Plan.renameCircuit_order changed
  obtain ⟨-, hasMain, ordered, all⟩ := Circuit.leafToRoot_spec asked
  obtain ⟨main, isModule, isMain⟩ := List.mem_map.mp hasMain
  obtain ⟨before, after, rfl⟩ := List.append_of_mem (all main isModule)
  exact ⟨before, main, after, asked, isMain,
    Plan.renameCircuit_main spec.steady isMain ordered unskipped mainUnskipped asked changed⟩

namespace Circuit.CaseClash

/-- A main module and the one it instantiates, with names that differ in their case only. -/
def value : Json := .object [("main", .string "TOP"), ("modules", .array [
  .object [("kind", .string "module"), ("name", .string "TOP"), ("ports", .array []),
    ("body", .array [.object [("kind", .string "inst"), ("name", .string "u"), ("module", .string "Top")]])],
  .object [("kind", .string "module"), ("name", .string "Top"), ("ports", .array []), ("body", .array [])]])]

def circuit : Circuit := ⟨"TOP", [.regular ⟨"TOP", [], [.inst "u" "Top"]⟩, .regular ⟨"Top", [], []⟩]⟩

theorem decoded : circuit.Decoded := ⟨value, by cbv⟩

theorem run_names : ∃ out ledger, (Pass.ofSpec .lowerCase).run circuit .empty .empty = .ok (out, ledger) ∧
    out.main = "top" ∧ out.modules.map Module.name = ["top_0", "top"] := by
  have given : ((Pass.ofSpec .lowerCase).run circuit .empty .empty).toOption.map (fun result =>
      (result.1.main, result.1.modules.map Module.name)) = some ("top", ["top_0", "top"]) := by decide +kernel
  obtain ⟨⟨out, ledger⟩, ran, named⟩ := Option.map_eq_some_iff.mp given
  obtain ⟨main, modules⟩ := Prod.mk.inj named
  exact ⟨out, ledger, toOption_eq_some.mp ran, main, modules⟩

end Circuit.CaseClash

open Circuit in
theorem Pass.run_caseClash_keepsMain_iff : ∃ out ledger,
    (Pass.ofSpec .lowerCase).run CaseClash.circuit .empty .empty = .ok (out, ledger) ∧
      ∃ before main after, CaseClash.circuit.leafToRoot = .ok (before ++ main :: after) ∧ main.name = "TOP" ∧
        (CaseClash.circuit.KeepsMain out ↔ ∀ (place : Nat) (module renamed : Module), module ∈ before →
          CaseClash.circuit.modules[place]? = some module → out.modules[place]? = some renamed →
          renamed.name ≠ out.main) := by
  obtain ⟨out, ledger, run, -⟩ := CaseClash.run_names
  exact ⟨out, ledger, run, Pass.run_keepsMain_iff rfl rfl run⟩

open Circuit in
/-- The module below takes the name of the circuit, and the main module is left with a number. -/
theorem Pass.run_caseClash_loses_main : CaseClash.circuit.Decoded ∧ ∃ out ledger,
    (Pass.ofSpec .lowerCase).run CaseClash.circuit .empty .empty = .ok (out, ledger) ∧
      ¬CaseClash.circuit.KeepsMain out := by
  obtain ⟨out, ledger, run, sameMain, names⟩ := CaseClash.run_names
  refine ⟨CaseClash.decoded, out, ledger, run, ?_⟩
  rintro ⟨place, main, renamed, atPlace, isMain, atRenamed, same⟩
  have named : (out.modules.map Module.name)[place]? = some "top" := by
    rw [List.getElem?_map, atRenamed, Option.map_some, same, sameMain]
  rw [names] at named
  match place, atPlace with
  | 0, _ => simp at named
  | 1, atPlace =>
    obtain rfl := Option.some.inj atPlace
    exact absurd isMain (by decide)
  | _ + 2, atPlace => cases atPlace

end CircuitNames
