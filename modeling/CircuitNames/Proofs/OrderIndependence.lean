import CircuitNames.Proofs.RecordedChanges
import CircuitNames.Proofs.Relabels
import CircuitNames.Proofs.Selections

namespace CircuitNames

/-- An order that has each module of a circuit once, after the modules that it instantiates. -/
structure Circuit.ListedBy (circuit : Circuit) (order : List Module) : Prop where
  all : order.Perm circuit.modules
  below : ∀ before module after, order = before ++ module :: after →
    ∀ edge ∈ module.instances, edge.module ∈ before.map Module.name

theorem Circuit.listedBy_iff {circuit : Circuit} {order : List Module} (distinct : circuit.Distinct) :
    circuit.ListedBy order ↔ order.Perm circuit.modules ∧ Hierarchy.Ordered circuit order := by
  constructor
  · rintro ⟨all, below⟩
    have names := (all.map Module.name).nodup_iff.mpr distinct.modules
    -- all that the order begins with is in order
    suffices parts : ∀ before after, order = before ++ after → Hierarchy.Ordered circuit before from
      ⟨all, parts order [] (List.append_nil order).symm⟩
    intro before
    induction before using List.reverseRecOn with
    | nil => exact fun _ _ => .nil
    | append_singleton before module ih =>
      intro after splits
      rw [List.append_assoc, List.singleton_append] at splits
      have member : module ∈ order := by simp [splits]
      rw [splits, List.map_append, List.map_cons, List.nodup_middle] at names
      have fresh : module.name ∉ before.map Module.name :=
        fun again => (List.nodup_cons.mp names).1 (List.mem_append_left _ again)
      exact (ih _ splits).snoc (all.mem_iff.mp member) fresh (below before module after splits)
  · rintro ⟨all, ordered⟩
    exact ⟨all, fun _ _ _ splits => ordered.callee_before splits⟩

section Names
variable {names other : Target → String} {home : ModuleTarget}

theorem MemDecl.renamed_congr {decl : MemDecl}
    (same : ∀ target ∈ (Declaration.mem decl).targets home, names target = other target) :
    decl.renamed names home = decl.renamed other home := by
  have own : names (.reference (home.reference decl.name)) = other (.reference (home.reference decl.name)) :=
    same _ List.mem_cons_self
  have each : ∀ port ∈ decl.portNames, names (.reference ((home.reference decl.name).field port)) =
      other (.reference ((home.reference decl.name).field port)) :=
    fun port isPort => same _ (List.mem_cons_of_mem _ (List.mem_map_of_mem isPort))
  simp only [portNames, List.mem_append, or_imp, forall_and] at each
  obtain ⟨⟨readers, writers⟩, readwriters⟩ := each
  unfold renamed
  dsimp only
  rw [own, List.map_congr_left readers, List.map_congr_left writers, List.map_congr_left readwriters]

mutual

theorem Stmt.relabel_renamed : ∀ {stmt : Stmt}, (∀ part ∈ stmt.walk, ∀ declaration,
      part.declaration? = some declaration →
        ∀ target ∈ declaration.targets home, names target = other target) →
    (stmt.renamed names home).relabel id blank id = (stmt.renamed other home).relabel id blank id
  | wire name _, same | reg name _ _ _, same | node name _, same => by
    have own : names (.reference (home.reference name)) = other (.reference (home.reference name)) :=
      same _ List.mem_cons_self _ rfl _ List.mem_cons_self
    rw [renamed, renamed, own]
  | inst name module, same => by
    have own : names (.inst (home.inst name module)) = other (.inst (home.inst name module)) :=
      same _ List.mem_cons_self _ rfl _ List.mem_cons_self
    rw [renamed, renamed, own]
    rfl
  | mem decl, same => by
    rw [renamed, renamed, MemDecl.renamed_congr (same _ List.mem_cons_self _ rfl)]
  | when cond body otherwise, same => by
    obtain ⟨-, nested⟩ := List.forall_mem_cons.mp same
    obtain ⟨inBody, inOtherwise⟩ := List.forall_mem_append.mp nested
    rw [renamed, renamed, relabel, relabel, relabelAll_renamedAll inBody, relabelAll_renamedAll inOtherwise]
  | block body, same => by
    rw [renamed, renamed, relabel, relabel, relabelAll_renamedAll (List.forall_mem_cons.mp same).2]
  | connect .., _ | invalidate .., _ | stop .., _ | print .., _ | skip, _ => rfl

theorem Stmt.relabelAll_renamedAll : ∀ {stmts : List Stmt}, (∀ part ∈ walkAll stmts, ∀ declaration,
      part.declaration? = some declaration →
        ∀ target ∈ declaration.targets home, names target = other target) →
    relabelAll id blank id (renamedAll names home stmts) =
      relabelAll id blank id (renamedAll other home stmts)
  | [], _ => rfl
  | stmt :: rest, same => by
    obtain ⟨inFirst, inRest⟩ := List.forall_mem_append.mp same
    rw [renamedAll, renamedAll, relabelAll, relabelAll, relabel_renamed inFirst, relabelAll_renamedAll inRest]

end

/-- Names that differ for modules alone make modules that differ in the names of modules alone. -/
theorem Module.relabel_renamed {main : String} {module : Module}
    (same : ∀ target ∈ module.targets main, target.kind ≠ .module → names target = other target) :
    (module.renamed names main).relabel id blank id = (module.renamed other main).relabel id blank id := by
  cases module with
  | external module => rfl
  | regular module =>
    have each : ∀ declaration ∈ module.declarations, ∀ target ∈ declaration.targets ⟨main, module.name⟩,
        names target = other target := by
      intro declaration declared target inside
      refine same target (mem_targets_regular.mpr (Or.inr ⟨declaration, declared, inside⟩)) ?_
      rcases Declaration.of_mem_targets inside with ⟨name, callee, -, rfl⟩ | ⟨fields, rfl⟩ <;>
        simp [Target.kind]
    obtain ⟨ofPorts, ofStmts⟩ := List.forall_mem_append.mp each
    have ports : module.ports.map (fun port =>
          { port with name := names (.reference ((ModuleTarget.mk main module.name).reference port.name)) }) =
        module.ports.map (fun port =>
          { port with
            name := other (.reference ((ModuleTarget.mk main module.name).reference port.name)) }) := by
      refine List.map_congr_left fun port isPort => ?_
      exact congrArg (fun name => { port with name := name })
        (ofPorts (.signal port.name) (List.mem_map_of_mem isPort) _ List.mem_cons_self)
    have body := Stmt.relabelAll_renamedAll fun part isStmt declaration declares =>
      ofStmts declaration (List.mem_filterMap.mpr ⟨part, isStmt, declares⟩)
    simp only [renamed, relabel, ports, body, blank]

end Names

/-- Results that differ at most in the names of modules, in the circuit and in what is recorded. -/
structure AgreeButModules (one two : Circuit × Ledger) : Prop where
  main : one.1.main = two.1.main
  modules : one.1.modules.map (Module.relabel id blank id) = two.1.modules.map (Module.relabel id blank id)
  entries : (one.2.entries.filter fun entry => entry.source.kind ≠ .module).Perm
    (two.2.entries.filter fun entry => entry.source.kind ≠ .module)

namespace Plan

section Orders
variable {circuit : Circuit} {order other : List Module} (plan : Plan) (ready : circuit.Ready order)
  (readyOther : circuit.Ready other) (all : order.Perm circuit.modules)
  (allOther : other.Perm circuit.modules)
include ready readyOther all allOther

/-- In either order, everything but the modules gets the same name. -/
theorem naming_eq {target : Target} (names : target.Identified) (beside : target.kind ≠ .module) :
    plan.naming circuit order target = plan.naming circuit other target := by
  by_cases isDeclared : ∃ entity ∈ circuit.entities, entity.target = target
  · obtain ⟨entity, isEntity, rfl⟩ := isDeclared
    have placed {module : RegularModule} {home : Nat}
        (atHome : circuit.modules[home]? = some (.regular module)) :
        .regular module ∈ order ∧ .regular module ∈ other :=
      ⟨all.mem_iff.mpr (List.mem_of_getElem? atHome), allOther.mem_iff.mpr (List.mem_of_getElem? atHome)⟩
    cases Circuit.mem_entities.mp isEntity with
    | circuit => exact (plan.naming_gives ready).1.symm.trans (plan.naming_gives readyOther).1
    | module atHome => exact absurd rfl beside
    | declaration atHome atSpot =>
      obtain ⟨member, memberOther⟩ := placed atHome
      have same :=
        (plan.naming_declarations ready member).trans (plan.naming_declarations readyOther memberOther).symm
      exact List.map_inj_left.mp same _ (Module.mem_of_declarationAt? atSpot)
    | memoryPort atHome atSpot atPort =>
      obtain ⟨member, memberOther⟩ := placed atHome
      have declares := RegularModule.mem_mem_declarations.mp (Module.mem_of_declarationAt? atSpot)
      have same := (plan.naming_memoryPorts ready member declares).trans
        (plan.naming_memoryPorts readyOther memberOther declares).symm
      exact List.map_inj_left.mp same _ (MemDecl.mem_portNames_of_portsIn atPort)
  · rw [plan.naming_undeclared ready names (mt (Circuit.mem_declared_iff all).mp isDeclared),
      plan.naming_undeclared readyOther names (mt (Circuit.mem_declared_iff allOther).mp isDeclared)]

/-- In either order, a module becomes the same but for the names of modules, if it can be followed. -/
theorem follow_relabel {module : Module} (inCircuit : module ∈ circuit.modules) :
    (plan.follow circuit order module).map (Module.relabel id blank id) =
      (plan.follow circuit other module).map (Module.relabel id blank id) := by
  have named {target : Target} (names : target.Identified) (beside : target.kind ≠ .module) :=
    plan.naming_eq ready readyOther all allOther names beside
  have member := all.mem_iff.mpr inCircuit
  have memberOther := allOther.mem_iff.mpr inCircuit
  have agree : ∀ own, module = .regular own →
      Sweep.AgreeAt ⟨circuit.main, own.name⟩ (plan.sweep circuit order) (plan.sweep circuit other) := by
    rintro own rfl
    refine plan.agreeAt ready readyOther member memberOther fun names beside _ => ?_
    rw [plan.nameOf_eq ready names, plan.nameOf_eq readyOther names, named names beside]
  have targets := Module.targets_identified ready.identified.main (ready.identified.modules module inCircuit)
  have renamed : (module.renamed (plan.naming circuit order) circuit.main).relabel id blank id =
      (module.renamed (plan.naming circuit other) circuit.main).relabel id blank id :=
    Module.relabel_renamed fun target inside beside => named (targets target inside) beside
  rw [follow, follow, Sweep.useModule_renamed ready.identified inCircuit agree,
    ← Sweep.useModule_of_relabel, renamed, Sweep.useModule_of_relabel]

/-- What is declared in a module is recorded alike in every order, since its scopes are the module's own. -/
theorem sweep_entries_perm :
    ((plan.sweep circuit order).renames.entries.filter fun entry => entry.source.kind ≠ .module).Perm
      ((plan.sweep circuit other).renames.entries.filter fun entry => entry.source.kind ≠ .module) := by
  have recorded : ∀ target ∈ declared (circuit.actions order),
      (target.change (plan.naming circuit order target)).filter (fun entry => entry.source.kind ≠ .module) =
        (target.change (plan.naming circuit other target)).filter fun entry =>
          entry.source.kind ≠ .module := by
    intro target inside
    by_cases beside : target.kind = .module
    · have none (name : String) :
          (target.change name).filter (fun entry => entry.source.kind ≠ .module) = none := by
        unfold Target.change
        split <;> simp [beside]
      rw [none, none]
    · have names := Circuit.declared_identified ready.identified ready.ordered target inside
      rw [plan.naming_eq ready readyOther all allOther names beside]
  have declares : (declared (circuit.actions order)).Perm (declared (circuit.actions other)) := by
    rw [Circuit.declared_actions, Circuit.declared_actions]
    exact ((all.trans allOther.symm).flatMap_right _).cons _
  rw [sweep_entries ready, sweep_entries readyOther, List.filter_filterMap, List.filter_filterMap,
    List.filterMap_congr recorded]
  exact declares.filterMap _

variable {orderOf otherOf : Circuit → Except Fault (List Module)} (asked : orderOf circuit = .ok order)
  (askedOther : otherOf circuit = .ok other)
include asked askedOther

/-- In any order that has each module after those it instantiates, what is declared in a module gets the same
name. Only the names of the modules themselves, which share one scope, can depend on the order, and nothing
else depends on them. -/
theorem renameCircuit_agrees {result otherResult : Circuit × Ledger}
    (run : plan.renameCircuit orderOf circuit = .ok result)
    (otherRun : plan.renameCircuit otherOf circuit = .ok otherResult) :
    AgreeButModules result otherResult := by
  obtain ⟨main, renames, followed⟩ := (plan.renameCircuit_eq_ok ready all asked).mp run
  obtain ⟨otherMain, otherRenames, otherFollowed⟩ :=
    (plan.renameCircuit_eq_ok readyOther allOther askedOther).mp otherRun
  refine ⟨?_, ?_, ?_⟩
  · rw [main, otherMain]
    exact (plan.naming_gives ready).1.symm.trans (plan.naming_gives readyOther).1
  · have erased {order : List Module} {results : List Module}
        (followed : List.Forall₂ (fun module result => plan.follow circuit order module = .ok result)
          circuit.modules results) :
        (results.map (Module.relabel id blank id)).map Except.ok =
          circuit.modules.map fun module =>
            (plan.follow circuit order module).map (Module.relabel id blank id) := by
      rw [List.map_map]
      exact map_eq_of_forall₂ (followed.imp fun module result gave => by rw [gave]; rfl)
    have same := List.map_congr_left fun module inCircuit =>
      plan.follow_relabel ready readyOther all allOther inCircuit
    rw [← erased followed, ← erased otherFollowed] at same
    exact List.map_injective_iff.mpr (fun _ _ => Except.ok.inj) same
  · rw [renames, otherRenames]
    exact plan.sweep_entries_perm ready readyOther all allOther

end Orders

end Plan

/-- The order of the modules has no part in what a pass does to anything but their names. In any two orders
that have each module once and after those it instantiates, the pass succeeds or fails alike. Where it
succeeds, the results differ at most in the names of modules, in the circuit and in what is recorded, and in
both an instance is one of the module in the place where its module stood. -/
theorem Pass.run_order_independent {spec : RuleSpec} {circuit : Circuit} {skips : SkipSet} {name : String}
    {orderOf otherOf : Circuit → Except Fault (List Module)} {order other : List Module}
    (decoded : circuit.Decoded) (distinct : circuit.Distinct) (asked : orderOf circuit = .ok order)
    (askedOther : otherOf circuit = .ok other) (listed : circuit.ListedBy order)
    (listedOther : circuit.ListedBy other) :
    ((∃ result, Pass.run ⟨name, spec.rule, orderOf⟩ circuit .empty skips = .ok result) ↔
      ∃ result, Pass.run ⟨name, spec.rule, otherOf⟩ circuit .empty skips = .ok result) ∧
    ∀ result otherResult, Pass.run ⟨name, spec.rule, orderOf⟩ circuit .empty skips = .ok result →
      Pass.run ⟨name, spec.rule, otherOf⟩ circuit .empty skips = .ok otherResult →
      AgreeButModules result otherResult ∧
      ∀ home spot place, (circuit.Instantiates home spot place ↔ result.1.Instantiates home spot place) ∧
        (circuit.Instantiates home spot place ↔ otherResult.1.Instantiates home spot place) := by
  obtain ⟨all, ordered⟩ := (Circuit.listedBy_iff distinct).mp listed
  obtain ⟨allOther, orderedOther⟩ := (Circuit.listedBy_iff distinct).mp listedOther
  have ready : circuit.Ready order := ⟨decoded.identified, distinct.inside, ordered⟩
  have readyOther : circuit.Ready other := ⟨decoded.identified, distinct.inside, orderedOther⟩
  let plan : Plan := ⟨spec.rule, skips⟩
  cases skipped : leavesAlone skips circuit with
  | true =>
    simp only [run_leavesAlone skipped, Except.ok.injEq]
    refine ⟨trivial, ?_⟩
    rintro _ _ rfl rfl
    exact ⟨⟨rfl, rfl, .refl _⟩, fun home spot place => ⟨Iff.rfl, Iff.rfl⟩⟩
  | false =>
    simp only [run_empty skipped]
    refine ⟨(plan.renameCircuit_succeeds_iff ready all asked).trans
      (plan.renameCircuit_succeeds_iff readyOther allOther askedOther).symm, ?_⟩
    intro result otherResult changed otherChanged
    refine ⟨plan.renameCircuit_agrees ready readyOther all allOther asked askedOther changed otherChanged, ?_⟩
    intro home spot place
    exact ⟨plan.renameCircuit_instantiates ready spec.fair all asked changed home spot place,
      plan.renameCircuit_instantiates readyOther spec.fair allOther askedOther otherChanged home spot place⟩

namespace Circuit.Sample

/-- The modules that are instantiated, in one order. -/
def subFirst : List Module := [.regular sub, .external ext, .regular top]

def extFirst : List Module := [.external ext, .regular sub, .regular top]

theorem subFirst_listed : circuit.ListedBy subFirst := by
  have topLast : subFirst.Perm circuit.modules :=
    List.perm_append_singleton (Module.regular top) [Module.regular sub, Module.external ext]
  refine (listedBy_iff distinct).mpr ⟨topLast, ?_⟩
  exact ((Hierarchy.Ordered.nil.snoc (by simp [circuit]) (by decide) (by decide +kernel)).snoc
    (by simp [circuit]) (by decide +kernel) (by decide +kernel)).snoc
    (by simp [circuit]) (by decide +kernel) (by decide +kernel)

theorem extFirst_listed : circuit.ListedBy extFirst := by
  have swapped : extFirst.Perm subFirst := .swap _ _ _
  refine (listedBy_iff distinct).mpr ⟨swapped.trans subFirst_listed.all, ?_⟩
  exact ((Hierarchy.Ordered.nil.snoc (by simp [circuit]) (by decide) (by decide +kernel)).snoc
    (by simp [circuit]) (by decide +kernel) (by decide +kernel)).snoc
    (by simp [circuit]) (by decide +kernel) (by decide +kernel)

def inOrder (order : List Module) : Pass := ⟨"upper-case", RuleSpec.upperCase.rule, fun _ => .ok order⟩

end Circuit.Sample

open Circuit in
theorem Pass.run_sample_orders :
    ∃ result other, (Sample.inOrder Sample.subFirst).run Sample.circuit .empty .empty = .ok result ∧
      (Sample.inOrder Sample.extFirst).run Sample.circuit .empty .empty = .ok other ∧
      AgreeButModules result other ∧ result.1.Instantiates 0 (.stmt 0) 1 ∧
        other.1.Instantiates 0 (.stmt 0) 1 := by
  obtain ⟨alike, agree⟩ := @Pass.run_order_independent .upperCase Sample.circuit .empty "upper-case"
    (fun _ => .ok Sample.subFirst) (fun _ => .ok Sample.extFirst) _ _ Sample.decoded Sample.distinct rfl rfl
    Sample.subFirst_listed Sample.extFirst_listed
  have succeeds :
      ((Sample.inOrder Sample.subFirst).run Sample.circuit .empty .empty).toOption.isSome = true := by
    decide +kernel
  obtain ⟨result, ran⟩ := Option.isSome_iff_exists.mp succeeds
  have run := toOption_eq_some.mp ran
  obtain ⟨other, otherRun⟩ := alike.mp ⟨result, run⟩
  obtain ⟨same, instances⟩ := agree result other run otherRun
  have own : Sample.circuit.Instantiates 0 (.stmt 0) 1 := ⟨"U", .regular Sample.sub, rfl, rfl⟩
  exact ⟨result, other, run, otherRun, same, (instances 0 (.stmt 0) 1).1.mp own,
    (instances 0 (.stmt 0) 1).2.mp own⟩

end CircuitNames
