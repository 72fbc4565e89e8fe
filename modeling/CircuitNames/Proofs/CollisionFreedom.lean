import CircuitNames.Proofs.DecodedCircuits
import CircuitNames.Proofs.RenamedModules

namespace CircuitNames

theorem RegularModule.terminalNames_declarations (home : ModuleTarget) (module : RegularModule) :
    (module.declarations.map (Declaration.target home)).map Target.terminalName = module.declaredNames := by
  rw [declaredNames_eq, List.map_map]
  exact List.map_congr_left fun declaration _ => declaration.terminalName_target home

theorem MemDecl.terminalNames_ports (memory : ReferenceTarget) (decl : MemDecl) :
    (decl.portNames.map fun port => Target.reference (memory.field port)).map Target.terminalName =
      decl.portNames := by
  simp [Target.terminalName, ReferenceTarget.field, Function.comp_def]

namespace Plan

variable {circuit : Circuit} {order : List Module} (plan : Plan) (fair : plan.rule.Fair)
  (ready : circuit.Ready order)
include fair ready

/-- Two modules never end up with one name. The first names of a scope are all that is declared there, so that
what is picked collides with no name that comes later. -/
theorem naming_modules_nodup :
    (order.map fun module => plan.naming circuit order (.module ⟨circuit.main, module.name⟩)).Nodup := by
  have terminal :
      (order.map fun module => Target.module ⟨circuit.main, module.name⟩).map Target.terminalName =
      order.map Module.name := by simp [Target.terminalName, Function.comp_def]
  rw [plan.naming_modules ready]
  refine pickAll_nodup fair (terminal ▸ ready.ordered.nodup) fun target inside => ?_
  obtain ⟨module, member, rfl⟩ := List.mem_map.mp inside
  exact Scope.mem_ofNames.mpr (List.mem_map_of_mem (ready.ordered.members module member))

/-- Nor do two declarations of one module. -/
theorem naming_declarations_nodup {module : RegularModule} (member : .regular module ∈ order) :
    (module.declarations.map fun declaration =>
      plan.naming circuit order (declaration.target ⟨circuit.main, module.name⟩)).Nodup := by
  have terminal := module.terminalNames_declarations ⟨circuit.main, module.name⟩
  have distinct := ready.distinct module (ready.ordered.members _ member)
  rw [plan.naming_declarations ready member]
  refine pickAll_nodup fair (terminal ▸ distinct.declared) fun target inside => ?_
  exact Scope.mem_ofNames.mpr (terminal ▸ List.mem_map_of_mem inside)

/-- Nor do two ports of one memory. -/
theorem naming_memoryPorts_nodup {module : RegularModule} (member : .regular module ∈ order) {decl : MemDecl}
    (declares : .mem decl ∈ module.statements) :
    (decl.portNames.map fun port => plan.naming circuit order
      (.reference (((ModuleTarget.mk circuit.main module.name).reference decl.name).field port))).Nodup := by
  have terminal := decl.terminalNames_ports ((ModuleTarget.mk circuit.main module.name).reference decl.name)
  have distinct := (ready.distinct module (ready.ordered.members _ member)).memories decl declares
  rw [plan.naming_memoryPorts ready member declares]
  refine pickAll_nodup fair (terminal.symm ▸ distinct) fun target inside => ?_
  exact Scope.mem_ofNames.mpr (terminal ▸ List.mem_map_of_mem inside)

/-- A renamed module has distinct names. -/
theorem renamedTo_distinct {module result : RegularModule} (member : .regular module ∈ order)
    {follow : Expr → Except Fault Expr}
    (renamed : module.RenamedTo (plan.naming circuit order) ⟨circuit.main, module.name⟩ follow result) :
    result.Distinct where
  declared := renamed.declaredNames ▸ plan.naming_declarations_nodup fair ready member
  memories decl inside := by
    obtain ⟨own, declares, rfl⟩ := renamed.of_mem_statements inside
    rw [MemDecl.portNames_renamed]
    exact plan.naming_memoryPorts_nodup fair ready member declares

/-- A renamed circuit has distinct names in each scope. -/
theorem renameCircuit_distinct (all : order.Perm circuit.modules)
    {orderOf : Circuit → Except Fault (List Module)} (asked : orderOf circuit = .ok order) {out : Circuit}
    {renames : Ledger} (run : plan.renameCircuit orderOf circuit = .ok (out, renames)) : out.Distinct := by
  obtain ⟨-, -, followed⟩ := (plan.renameCircuit_eq_ok ready all asked).mp run
  constructor
  · have names : out.modules.map Module.name = circuit.modules.map fun module =>
        plan.naming circuit order (.module ⟨circuit.main, module.name⟩) :=
      map_eq_of_forall₂ (followed.imp fun _ _ gave => follow_name gave)
    rw [names]
    exact (all.map _).nodup_iff.mp (plan.naming_modules_nodup fair ready)
  · intro result inside
    obtain ⟨module, member, gave⟩ := exists_of_mem_right followed inside
    have placed := all.mem_iff.mpr member
    cases module with
    | external module => cases follow_external gave
    | regular module =>
      obtain ⟨own, same, renamed⟩ := follow_regular gave
      obtain rfl := Module.regular.inj same
      exact plan.renamedTo_distinct fair ready placed renamed

end Plan

/-- A circuit of identifiers, distinct in each module, is ready for the order from its leaves to its root. -/
theorem Circuit.Identified.ready {circuit : Circuit} (identified : circuit.Identified)
    (distinct : circuit.LocallyDistinct) {order : List Module} (ordered : circuit.leafToRoot = .ok order) :
    circuit.Ready order :=
  ⟨identified, distinct, (Circuit.leafToRoot_spec ordered).2.2.1⟩

theorem Circuit.Decoded.ready {circuit : Circuit} (decoded : circuit.Decoded)
    (distinct : circuit.LocallyDistinct) {order : List Module} (ordered : circuit.leafToRoot = .ok order) :
    circuit.Ready order :=
  decoded.identified.ready distinct ordered

/-- The names of each scope stay distinct. The circuit is left as it is, or else everything that is declared
in a scope gets its name there: the modules among the modules, the ports and declarations of a module among
themselves, and the ports of a memory among theirs. This holds of every rule that takes no name which the
scope had before for another, those that can be asked for by name included. -/
theorem Pass.run_keeps_names_distinct :
    (∀ spec : RuleSpec, spec.rule.Fair) ∧
      ∀ {circuit out : Circuit} {ledger result : Ledger} {name : String} {rule : Rule} {skips : SkipSet},
        circuit.Decoded → circuit.Distinct → rule.Fair →
        (Pass.ofRule name rule).run circuit ledger skips = .ok (out, result) → out.Distinct := by
  refine ⟨RuleSpec.fair, fun {circuit out ledger result name rule skips} decoded distinct fair run => ?_⟩
  cases skipped : Pass.leavesAlone skips circuit with
  | true =>
    rw [Pass.run_leavesAlone skipped] at run
    obtain ⟨rfl, -⟩ := Prod.mk.inj (Except.ok.inj run)
    exact distinct
  | false =>
    obtain ⟨renames, changed, -⟩ := (Pass.run_eq_ok skipped).mp run
    obtain ⟨order, ordered⟩ := Plan.renameCircuit_order changed
    have ready := decoded.ready distinct.inside ordered
    exact Plan.renameCircuit_distinct ⟨rule, skips⟩ fair ready
      (Circuit.leafToRoot_perm ordered) ordered changed

open Circuit in
theorem Pass.run_sample_names_distinct :
    ∃ out ledger, (Pass.ofSpec .lowerCase).run Sample.circuit .empty .empty = .ok (out, ledger) ∧
      out.Distinct := by
  have succeeds : ((Pass.ofSpec .lowerCase).run Sample.circuit .empty .empty).toOption.isSome = true := by
    decide +kernel
  obtain ⟨⟨out, ledger⟩, ran⟩ := Option.isSome_iff_exists.mp succeeds
  have run := toOption_eq_some.mp ran
  exact ⟨out, ledger, run,
    Pass.run_keeps_names_distinct.2 Sample.decoded Sample.distinct RuleSpec.lowerCase.fair run⟩

end CircuitNames
