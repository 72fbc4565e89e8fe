import CircuitNames.Proofs.Renaming

namespace CircuitNames

namespace Circuit

/-- Every use designates something. -/
def Resolved (circuit : Circuit) : Prop :=
  ∀ home module, circuit.modules[home]? = some (.regular module) →
    ∀ stmt ∈ module.statements, ∀ use ∈ stmt.uses, ∃ referent, circuit.Designates home use referent

/-- The modules of two circuits stand in the same places, with the same statements in them, in which each
use designates what stands in the same position. An external module differs in its name at most. -/
structure SameReferences (circuit out : Circuit) : Prop where
  length : out.modules.length = circuit.modules.length
  uses : ∀ home module, circuit.modules[home]? = some (.regular module) →
    ∃ result, out.modules[home]? = some (.regular result) ∧
      List.Forall₂ (fun stmt stmt' => List.Forall₂ (fun use use' =>
          ∀ referent, circuit.Designates home use referent ↔ out.Designates home use' referent)
        stmt.uses stmt'.uses) module.statements result.statements
  instances : ∀ home spot place, circuit.Instantiates home spot place ↔ out.Instantiates home spot place
  externals : ∀ (home : Nat) (module : ExternalModule), circuit.modules[home]? = some (.external module) →
    ∃ name, out.modules[home]? = some (.external { module with name := name })

theorem Sample.resolved : Sample.circuit.Resolved := by
  intro home module atHome stmt inside use isUse
  match home, atHome with
  | 0, atHome =>
    obtain rfl := Module.regular.inj (Option.some.inj atHome)
    have held := List.mem_flatMap.mpr ⟨stmt, inside, isUse⟩
    have uses : Sample.top.statements.flatMap Stmt.uses = [.ref "En", .subfield (.ref "U") "A",
      .subfield (.subfield (.ref "Mem") "R") "data", .subfield (.ref "X") "Q",
      .subfield (.ref "Mem") "r"] := rfl
    simp only [uses, List.mem_cons, List.not_mem_nil, or_false] at held
    rcases held with rfl | rfl | rfl | rfl | rfl
    · exact ⟨_, @Designates.plain Sample.circuit 0 (.port 0) (.signal "En") rfl⟩
    · exact ⟨_, @Designates.instancePort Sample.circuit 0 (.stmt 0) "U" "A"
        (.regular Sample.sub) 1 0 rfl rfl rfl⟩
    · exact ⟨_, @Designates.memorySignal Sample.circuit 0 (.stmt 1) Sample.memory .reader 0
        "R" "data" rfl rfl⟩
    · exact ⟨_, @Designates.instancePort Sample.circuit 0 (.stmt 5) "X" "Q"
        (.external Sample.ext) 2 0 rfl rfl rfl⟩
    · exact ⟨_, @Designates.memoryPort Sample.circuit 0 (.stmt 1) Sample.memory .reader 1 "r" rfl rfl⟩
  | 1, atHome =>
    obtain rfl := Module.regular.inj (Option.some.inj atHome)
    cases inside
  | 2, atHome => cases atHome
  | _ + 3, atHome => cases atHome

end Circuit

namespace Plan

variable {circuit : Circuit} {order : List Module} (plan : Plan) (ready : circuit.Ready order)
include ready

theorem nameOf_eq {target : Target} (names : target.Identified) :
    (plan.sweep circuit order).nameOf target.terminalName target = .ok (plan.naming circuit order target) :=
  Sweep.nameOf_eq (plan.sweep_plain ready) names

section Followed

variable {module : RegularModule} (member : .regular module ∈ order)
include member

theorem declared_identified {declaration : Declaration} (declared : declaration ∈ module.declarations) :
    ∀ target ∈ declaration.targets ⟨circuit.main, module.name⟩, target.Identified := by
  have inCircuit := ready.ordered.members _ member
  refine Declaration.targets_identified ready.identified.main (ready.identified.moduleName inCircuit) ?_
  exact fun name holds =>
    ready.identified.modules _ inCircuit name (RegularModule.names_of_declaration declared name holds)

theorem name_identified {declaration : Declaration} (declared : declaration ∈ module.declarations) :
    isIdentifier declaration.name = true :=
  ready.identified.modules _ (ready.ordered.members _ member) _
    (RegularModule.names_of_declaration declared _ declaration.name_mem_names)

/-- A name becomes the name of what it names. -/
theorem useName_declared {declaration : Declaration} (declared : declaration ∈ module.declarations) :
    (plan.sweep circuit order).useName ⟨circuit.main, module.name⟩ declaration.name =
      .ok (plan.naming circuit order (declaration.target ⟨circuit.main, module.name⟩)) := by
  have nameOk := name_identified ready member declared
  have identified := declared_identified ready member declared _ List.mem_cons_self
  have named := plan.nameOf_eq ready identified
  rw [Declaration.terminalName_target] at named
  unfold Sweep.useName
  dsimp only
  rw [plan.sweep_find?_declared ready member declared nameOk]
  cases declaration <;> exact named

theorem useExpr_declared {declaration : Declaration} (declared : declaration ∈ module.declarations) :
    (plan.sweep circuit order).useExpr ⟨circuit.main, module.name⟩ (.ref declaration.name) =
      .ok (.ref (plan.naming circuit order (declaration.target ⟨circuit.main, module.name⟩))) :=
  bind_eq_ok.mpr ⟨_, plan.useName_declared ready member declared, rfl⟩

/-- A port of an instance becomes the port of the module, selected from the instance. -/
theorem useField_instancePort {root callee field : String}
    (declared : .inst root callee ∈ module.declarations) (fieldOk : isIdentifier field = true) :
    (plan.sweep circuit order).useField ⟨circuit.main, module.name⟩ (.ref root) field =
      .ok (.subfield
        (.ref (plan.naming circuit order
          (.inst ((ModuleTarget.mk circuit.main module.name).inst root callee))))
        (plan.naming circuit order
          (.reference ((ModuleTarget.mk circuit.main callee).reference field)))) := by
  have rootOk : isIdentifier root = true := name_identified ready member declared
  have calleeOk := Circuit.callee_identified ready.identified (ready.ordered.members _ member) declared
  have bound := (plan.sweep_find?_inst ready member rootOk).mpr ⟨callee, declared, rfl⟩
  have own := plan.nameOf_eq ready (declared_identified ready member declared _ List.mem_cons_self)
  have port := plan.nameOf_eq ready (ready.identified.reference calleeOk fieldOk)
  rw [Sweep.useField_inst bound]
  exact bind_eq_ok.mpr ⟨_, own, bind_eq_ok.mpr ⟨_, port, rfl⟩⟩

theorem port_identified {decl : MemDecl} (declared : .mem decl ∈ module.declarations) {port : String}
    (isPort : port ∈ decl.portNames) : isIdentifier port = true :=
  ready.identified.modules _ (ready.ordered.members _ member) port
    (RegularModule.names_of_declaration declared port (List.mem_cons_of_mem _ isPort))

theorem field_identified {decl : MemDecl} (declared : .mem decl ∈ module.declarations) {port : String}
    (portOk : isIdentifier port = true) :
    (Target.reference
      (((ModuleTarget.mk circuit.main module.name).reference decl.name).field port)).Identified :=
  ready.identified.field (ready.identified.moduleName (ready.ordered.members _ member))
    (name_identified ready member declared) portOk

/-- A field of a memory becomes what the port of that name is called, if there is one. -/
theorem useField_memoryPort {decl : MemDecl} (declared : .mem decl ∈ module.declarations) {port : String}
    (portOk : isIdentifier port = true) :
    (plan.sweep circuit order).useField ⟨circuit.main, module.name⟩ (.ref decl.name) port =
      .ok (.subfield
        (.ref (plan.naming circuit order
          (.reference ((ModuleTarget.mk circuit.main module.name).reference decl.name))))
        (plan.naming circuit order
          (.reference (((ModuleTarget.mk circuit.main module.name).reference decl.name).field port)))) := by
  have nameOk : isIdentifier decl.name = true := name_identified ready member declared
  have bound := (plan.sweep_find?_memory ready member nameOk).mpr ⟨decl, declared, rfl, rfl⟩
  have own := plan.nameOf_eq ready (declared_identified ready member declared _ List.mem_cons_self)
  have below := plan.nameOf_eq ready (field_identified ready member declared portOk)
  rw [Sweep.useField_memory bound]
  exact bind_eq_ok.mpr ⟨_, own, bind_eq_ok.mpr ⟨_, below, rfl⟩⟩

/-- A signal of a memory's port keeps its own name, below the new names of the memory and of the port. -/
theorem useField_memorySignal {decl : MemDecl} (declared : .mem decl ∈ module.declarations) {port : String}
    (portOk : isIdentifier port = true) (signal : String) :
    (plan.sweep circuit order).useField ⟨circuit.main, module.name⟩ (.subfield (.ref decl.name) port) signal =
      .ok (.subfield (.subfield
        (.ref (plan.naming circuit order
          (.reference ((ModuleTarget.mk circuit.main module.name).reference decl.name))))
        (plan.naming circuit order
          (.reference (((ModuleTarget.mk circuit.main module.name).reference decl.name).field port))))
        signal) := by
  have nameOk : isIdentifier decl.name = true := name_identified ready member declared
  have bound := (plan.sweep_find?_memory ready member nameOk).mpr ⟨decl, declared, rfl, rfl⟩
  have own := plan.nameOf_eq ready (declared_identified ready member declared _ List.mem_cons_self)
  have below := plan.nameOf_eq ready (field_identified ready member declared portOk)
  rw [Sweep.useField_signal bound]
  exact bind_eq_ok.mpr ⟨_, own, bind_eq_ok.mpr ⟨_, below, rfl⟩⟩

end Followed

variable (fair : plan.rule.Fair) (all : order.Perm circuit.modules)
include fair all

/-- What designates something is followed to what designates the same, wherever the names are given. -/
theorem useExpr_designates {home : Nat} {module : RegularModule}
    (atHome : circuit.modules[home]? = some (.regular module)) {use : Expr} {referent : Referent}
    (designates : circuit.Designates home use referent) :
    ∃ use', (plan.sweep circuit order).useExpr ⟨circuit.main, module.name⟩ use = .ok use' ∧
      ∀ out, Renaming (plan.naming circuit order) circuit out →
        ∀ other, circuit.Designates home use other ↔ out.Designates home use' other := by
  have member : .regular module ∈ order := all.mem_iff.mpr (List.mem_of_getElem? atHome)
  have distinct : circuit.Distinct := ⟨(all.map _).nodup_iff.mp ready.ordered.nodup, ready.distinct⟩
  have own := Renaming.refl circuit
  have ownApart := distinct.separates
  have apart := plan.naming_separates ready all fair
  cases designates with
  | @plain spot declaration atSpot =>
    have declared := Circuit.mem_of_declarationAt? atHome atSpot
    refine ⟨_, plan.useExpr_declared ready member declared, fun out renamed other => ?_⟩
    have before := own.designates_ref atHome ownApart other declared
    rw [Declaration.terminalName_target] at before
    exact before.trans (renamed.designates_ref atHome apart other declared).symm
  | @instancePort spot root port callee place index atSpot atPlace atPort =>
    have declared := Circuit.mem_of_declarationAt? atHome atSpot
    have isCallee := List.mem_of_getElem? atPlace
    have isPort := Module.mem_of_declarationAt? atPort
    have portOk := ready.identified.modules _ (List.mem_of_getElem? atPlace) port
      (Module.names_of_declaration isPort _ List.mem_cons_self)
    refine ⟨_, plan.useField_instancePort ready member declared portOk, fun out renamed other => ?_⟩
    exact (own.designates_instancePort atHome ownApart other isCallee declared isPort).trans
      (renamed.designates_instancePort atHome apart other isCallee declared isPort).symm
  | @memoryPort spot decl role index port atSpot atPort =>
    have declared := Circuit.mem_of_declarationAt? atHome atSpot
    have isPort := MemDecl.mem_portNames_of_portsIn atPort
    have portOk := port_identified ready member declared isPort
    refine ⟨_, plan.useField_memoryPort ready member declared portOk, fun out renamed other => ?_⟩
    exact (own.designates_memoryPort atHome ownApart other declared isPort).trans
      (renamed.designates_memoryPort atHome apart other declared isPort).symm
  | @memorySignal spot decl role index port signal atSpot atPort =>
    have declared := Circuit.mem_of_declarationAt? atHome atSpot
    have isPort := MemDecl.mem_portNames_of_portsIn atPort
    have portOk := port_identified ready member declared isPort
    refine ⟨_, plan.useField_memorySignal ready member declared portOk signal, fun out renamed other => ?_⟩
    exact (own.designates_memorySignal atHome ownApart other declared isPort).trans
      (renamed.designates_memorySignal atHome apart other declared isPort).symm

/-- A circuit whose uses are resolved is renamed without fault. -/
theorem renameCircuit_total (resolved : circuit.Resolved) {orderOf : Circuit → Except Fault (List Module)}
    (asked : orderOf circuit = .ok order) :
    ∃ out renames, plan.renameCircuit orderOf circuit = .ok (out, renames) := by
  rw [← Prod.exists', plan.renameCircuit_total_iff ready all asked]
  intro module inside
  obtain ⟨home, atHome⟩ := List.getElem?_of_mem inside
  refine follow_total fun own same stmt isStmt use isUse => ?_
  subst same
  obtain ⟨referent, designates⟩ := resolved home own atHome stmt isStmt use isUse
  obtain ⟨use', followed, -⟩ := plan.useExpr_designates ready fair all atHome designates
  exact ⟨use', followed⟩

/-- The uses in a module designate in the result what they designate before. -/
theorem uses_designate (resolved : circuit.Resolved) {out : Circuit}
    (renamed : Renaming (plan.naming circuit order) circuit out) {home : Nat} {module result : RegularModule}
    (atHome : circuit.modules[home]? = some (.regular module))
    (renamedTo : module.RenamedTo (plan.naming circuit order) ⟨circuit.main, module.name⟩
      ((plan.sweep circuit order).useExpr ⟨circuit.main, module.name⟩) result) :
    List.Forall₂ (fun stmt stmt' => List.Forall₂ (fun use use' =>
        ∀ referent, circuit.Designates home use referent ↔ out.Designates home use' referent)
      stmt.uses stmt'.uses) module.statements result.statements := by
  refine renamedTo.uses.imp fun stmt stmt' ⟨isStmt, each⟩ => each.imp fun use use' ⟨isUse, followed⟩ => ?_
  obtain ⟨referent, designates⟩ := resolved home module atHome stmt isStmt use isUse
  obtain ⟨use'', followed', same⟩ := plan.useExpr_designates ready fair all atHome designates
  obtain rfl := Except.ok.inj (followed.symm.trans followed')
  exact same out renamed

/-- An instance is, in the result, an instance of the module that stands where its module stood. -/
theorem renameCircuit_instantiates {orderOf : Circuit → Except Fault (List Module)}
    (asked : orderOf circuit = .ok order) {out : Circuit} {renames : Ledger}
    (run : plan.renameCircuit orderOf circuit = .ok (out, renames)) (home : Nat) (spot : Spot) (place : Nat) :
    circuit.Instantiates home spot place ↔ out.Instantiates home spot place := by
  have renamed := plan.renameCircuit_renaming ready all asked run
  cases atHome : circuit.modules[home]? with
  | none =>
    have beyond : out.modules[home]? = none := by
      rw [List.getElem?_eq_none_iff] at atHome ⊢
      exact renamed.modules.length_eq ▸ atHome
    simp [Circuit.Instantiates, Circuit.declarationAt?, atHome, beyond]
  | some module =>
    refine renamed.instantiates_iff atHome (plan.naming_separates ready all fair)
      fun name callee declared => ?_
    have member := all.mem_iff.mpr (List.mem_of_getElem? atHome)
    cases module with
    | external module =>
      obtain ⟨port, -, same⟩ := Module.external_declarations declared
      cases same
    | regular module =>
      have isInstance : InstanceEdge.mk name callee ∈ (Module.regular module).instances :=
        RegularModule.inst_mem_declarations.mp declared
      obtain ⟨other, isOther, named⟩ := ready.ordered.callee_mem member isInstance
      exact ⟨other, ready.ordered.members _ isOther, named⟩

theorem renameCircuit_references (resolved : circuit.Resolved)
    {orderOf : Circuit → Except Fault (List Module)} (asked : orderOf circuit = .ok order) {out : Circuit}
    {renames : Ledger} (run : plan.renameCircuit orderOf circuit = .ok (out, renames)) :
    circuit.SameReferences out := by
  have renamed := plan.renameCircuit_renaming ready all asked run
  obtain ⟨-, -, followed⟩ := (plan.renameCircuit_eq_ok ready all asked).mp run
  refine ⟨followed.length_eq.symm, ?_, plan.renameCircuit_instantiates ready fair all asked run, ?_⟩
  · intro home module atHome
    obtain ⟨result, atResult, gave⟩ := getElem?_of_forall₂_left followed atHome
    obtain ⟨own, rfl, renamedTo⟩ := follow_regular gave
    exact ⟨own, atResult, plan.uses_designate ready fair all resolved renamed atHome renamedTo⟩
  · intro home module atHome
    obtain ⟨result, atResult, gave⟩ := getElem?_of_forall₂_left followed atHome
    exact ⟨_, follow_external gave ▸ atResult⟩

end Plan

/-- A run keeps all references. It succeeds, and what a use designates by the declarations of the circuit is
what the use in its place designates by those of the result, at every depth. This takes names that are
distinct in each module, uses that all designate something, and a rule that takes no name which the scope had
before. -/
theorem Pass.run_keeps_references :
    (∀ spec : RuleSpec, spec.rule.Fair) ∧
      ∀ {circuit : Circuit} {order : List Module} {name : String} {rule : Rule} {skips : SkipSet},
        circuit.Decoded → circuit.leafToRoot = .ok order → circuit.LocallyDistinct →
          circuit.Resolved → rule.Fair →
        skips.contains (.circuit circuit.main) = false →
        ∃ out ledger, (Pass.ofRule name rule).run circuit .empty skips = .ok (out, ledger) ∧
          circuit.SameReferences out := by
  refine ⟨RuleSpec.fair,
    fun {circuit order name rule skips} decoded ordered distinct resolved fair unskipped => ?_⟩
  have ready := decoded.ready distinct ordered
  have all := Circuit.leafToRoot_perm ordered
  obtain ⟨out, renames, changed⟩ := Plan.renameCircuit_total ⟨rule, skips⟩ ready fair all resolved ordered
  have kept := Ledger.compose_empty renames
  refine ⟨out, renames, (Pass.run_eq_ok unskipped).mpr ⟨renames, changed, kept⟩, ?_⟩
  exact Plan.renameCircuit_references ⟨rule, skips⟩ ready fair all resolved ordered changed

open Circuit in
theorem Pass.run_sample_references :
    ∃ out ledger, (Pass.ofSpec .lowerCase).run Sample.circuit .empty .empty = .ok (out, ledger) ∧
      Sample.circuit.SameReferences out :=
  Pass.run_keeps_references.2 Sample.decoded Sample.ordered Sample.distinct.inside Sample.resolved
    RuleSpec.lowerCase.fair rfl

end CircuitNames
