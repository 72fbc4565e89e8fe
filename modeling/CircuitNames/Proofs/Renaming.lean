import CircuitNames.Proofs.CollisionFreedom

namespace CircuitNames

abbrev Circuit.home (circuit : Circuit) (module : Module) : ModuleTarget := ⟨circuit.main, module.name⟩

/-- A circuit has the declarations of another at the same positions, under the names that a function gives. -/
structure Renaming (names : Target → String) (circuit out : Circuit) : Prop where
  main : out.main = names (.circuit circuit.main)
  modules : List.Forall₂ (fun module result => result.name = names (.module (circuit.home module)) ∧
    ∀ spot, result.declarationAt? spot =
      (module.declarationAt? spot).map (Declaration.renamed names (circuit.home module)))
    circuit.modules out.modules

/-- Names that keep apart what is declared in one scope. -/
structure Circuit.Separates (circuit : Circuit) (names : Target → String) : Prop where
  modules : ∀ module ∈ circuit.modules, ∀ other ∈ circuit.modules,
    names (.module (circuit.home module)) = names (.module (circuit.home other)) → module = other
  declarations : ∀ module ∈ circuit.modules, ∀ first ∈ module.declarations, ∀ second ∈ module.declarations,
    names (first.target (circuit.home module)) = names (second.target (circuit.home module)) → first = second
  memoryPorts : ∀ module ∈ circuit.modules, ∀ decl, .mem decl ∈ module.declarations →
    ∀ first ∈ decl.portNames, ∀ second ∈ decl.portNames,
    names (.reference (((circuit.home module).reference decl.name).field first)) =
      names (.reference (((circuit.home module).reference decl.name).field second)) → first = second

/-- Every circuit is its own, under the names it has. -/
theorem Renaming.refl (circuit : Circuit) : Renaming Target.terminalName circuit circuit where
  main := rfl
  modules := by
    have same (module : Module) : Declaration.renamed Target.terminalName (circuit.home module) = id := by
      funext declaration
      cases declaration with
      | signal name => rfl
      | inst name callee => rfl
      | mem decl => simp [Declaration.renamed, MemDecl.renamed, Target.terminalName, ReferenceTarget.field,
          ModuleTarget.reference]
    refine List.forall₂_same.mpr fun module _ => ⟨rfl, fun spot => ?_⟩
    rw [same, Option.map_id, id]

/-- Distinct names keep apart all that is declared in one place. -/
theorem Circuit.Distinct.separates {circuit : Circuit} (distinct : circuit.Distinct) :
    circuit.Separates Target.terminalName where
  modules _ member _ otherMember same := List.inj_on_of_nodup_map distinct.modules member otherMember same
  declarations module member first isFirst second isSecond same := by
    rw [Declaration.terminalName_target, Declaration.terminalName_target] at same
    cases module with
    | regular module =>
      have names := (distinct.inside module member).declared
      rw [RegularModule.declaredNames_eq] at names
      exact List.inj_on_of_nodup_map names isFirst isSecond same
    | external module =>
      obtain ⟨port, -, rfl⟩ := Module.external_declarations isFirst
      obtain ⟨other, -, rfl⟩ := Module.external_declarations isSecond
      exact congrArg Declaration.signal same
  memoryPorts _ _ _ _ _ _ _ _ same := by simpa [Target.terminalName, ReferenceTarget.field] using same

namespace Renaming

variable {names : Target → String} {circuit out : Circuit} (renamed : Renaming names circuit out)
  {home : Nat} {module : Module} (atHome : circuit.modules[home]? = some module)
include renamed atHome

/-- The result declares at a place what was declared there, under its new name. -/
theorem declarationAt?_eq_some {spot : Spot} {declaration : Declaration} :
    out.declarationAt? home spot = some declaration ↔
      ∃ own, circuit.declarationAt? home spot = some own ∧
        own.renamed names (circuit.home module) = declaration := by
  obtain ⟨result, atResult, -, each⟩ := getElem?_of_forall₂_left renamed.modules atHome
  simp [Circuit.declarationAt?, atHome, atResult, each]

variable (apart : circuit.Separates names) (referent : Referent)
include apart

/-- What is declared under a name in the result stands where it stood. -/
theorem declared_iff {declaration : Declaration}
    (declared : declaration ∈ module.declarations) {spot : Spot} :
    (∃ result, out.declarationAt? home spot = some result ∧
        result.name = names (declaration.target (circuit.home module))) ↔
      circuit.declarationAt? home spot = some declaration := by
  constructor
  · rintro ⟨_, atResult, named⟩
    obtain ⟨own, atOwn, rfl⟩ := (renamed.declarationAt?_eq_some atHome).mp atResult
    rw [Declaration.name_renamed] at named
    have isOwn := Circuit.mem_of_declarationAt? atHome atOwn
    rw [atOwn, apart.declarations module (List.mem_of_getElem? atHome) own isOwn declaration declared named]
  · intro atSpot
    exact ⟨_, (renamed.declarationAt?_eq_some atHome).mpr ⟨declaration, atSpot, rfl⟩,
      declaration.name_renamed _ _⟩

/-- The names of a result designate in it what they designate before. -/
theorem designates_ref {declaration : Declaration} (declared : declaration ∈ module.declarations) :
    out.Designates home (.ref (names (declaration.target (circuit.home module)))) referent ↔
      ∃ spot, circuit.declarationAt? home spot = some declaration ∧ referent = .declaration home spot := by
  have sameSpot := fun spot => @declared_iff _ _ _ renamed _ _ atHome apart _ declared spot
  constructor
  · intro designates
    obtain ⟨spot, result, atSpot, named, rfl⟩ := designates.of_ref
    exact ⟨spot, (sameSpot spot).mp ⟨result, atSpot, named⟩, rfl⟩
  · rintro ⟨spot, atSpot, rfl⟩
    obtain ⟨result, atResult, named⟩ := (sameSpot spot).mpr atSpot
    exact named ▸ .plain atResult

/-- A port of an instance is designated under the new names of the instance and of the port. -/
theorem designates_instancePort {root port : String} {callee : Module} (member : callee ∈ circuit.modules)
    (declared : .inst root callee.name ∈ module.declarations) (isPort : .signal port ∈ callee.declarations) :
    out.Designates home
        (.subfield (.ref (names (.inst ((circuit.home module).inst root callee.name))))
          (names (.reference ((circuit.home callee).reference port)))) referent ↔
      ∃ spot place index, circuit.declarationAt? home spot = some (.inst root callee.name) ∧
        circuit.modules[place]? = some callee ∧ callee.declarationAt? (.port index) = some (.signal port) ∧
        referent = .instancePort home spot place index := by
  have sameSpot := fun spot => @declared_iff _ _ _ renamed _ _ atHome apart _ declared spot
  constructor
  · intro designates
    rcases designates.of_field with ⟨spot, result, place, index, atSpot, atPlace, atPort, rfl⟩ |
      ⟨spot, decl, role, index, atSpot, named, -, -⟩
    · have atOwn := (sameSpot spot).mp ⟨_, atSpot, rfl⟩
      obtain ⟨own, same, inst⟩ := (renamed.declarationAt?_eq_some atHome).mp atSpot
      obtain rfl := Option.some.inj (atOwn.symm.trans same)
      obtain ⟨other, atOther, otherNamed, each⟩ := getElem?_of_forall₂_right renamed.modules atPlace
      have sameName := (Declaration.inst.inj inst).2.trans otherNamed
      obtain rfl := apart.modules callee member other (List.mem_of_getElem? atOther) sameName
      obtain ⟨signal, atSignal, signalNamed⟩ :=
        Option.map_eq_some_iff.mp ((each (.port index)).symm.trans atPort)
      have isSignal := Module.mem_of_declarationAt? atSignal
      have named := signalNamed ▸ signal.name_renamed names (circuit.home callee)
      obtain rfl := apart.declarations callee member signal isSignal _ isPort named.symm
      exact ⟨spot, place, index, atOwn, atOther, atSignal, rfl⟩
    · have atOwn := (sameSpot spot).mp ⟨_, atSpot, named⟩
      obtain ⟨own, same, inst⟩ := (renamed.declarationAt?_eq_some atHome).mp atSpot
      obtain rfl := Option.some.inj (atOwn.symm.trans same)
      cases inst
  · rintro ⟨spot, place, index, atSpot, atPlace, atPort, rfl⟩
    obtain ⟨result, atResult, named, each⟩ := getElem?_of_forall₂_left renamed.modules atPlace
    have inst := (renamed.declarationAt?_eq_some atHome).mpr ⟨_, atSpot, rfl⟩
    rw [Declaration.renamed] at inst
    rw [← named] at inst
    refine .instancePort inst atResult ?_
    rw [each, atPort]
    rfl

/-- The ports of a memory under a name in the result stand where they stood. -/
theorem memoryPort_iff {decl : MemDecl} (declared : .mem decl ∈ module.declarations) {port : String}
    (isPort : port ∈ decl.portNames) {spot : Spot} {role : PortRole} {index : Nat} :
    (∃ result, out.declarationAt? home spot = some (.mem result) ∧
        result.name = names (.reference ((circuit.home module).reference decl.name)) ∧
        (result.portsIn role)[index]? =
          some (names (.reference (((circuit.home module).reference decl.name).field port)))) ↔
      circuit.declarationAt? home spot = some (.mem decl) ∧ (decl.portsIn role)[index]? = some port := by
  have sameSpot := @declared_iff _ _ _ renamed _ _ atHome apart _ declared spot
  constructor
  · rintro ⟨result, atResult, named, atPort⟩
    have atOwn := sameSpot.mp ⟨_, atResult, named⟩
    obtain ⟨own, same, memory⟩ := (renamed.declarationAt?_eq_some atHome).mp atResult
    obtain rfl := Option.some.inj (atOwn.symm.trans same)
    obtain rfl := Declaration.mem.inj memory
    rw [MemDecl.portsIn_renamed, List.getElem?_map, Option.map_eq_some_iff] at atPort
    obtain ⟨other, atOther, otherNamed⟩ := atPort
    have isOther := MemDecl.mem_portNames_of_portsIn atOther
    have member := List.mem_of_getElem? atHome
    obtain rfl := apart.memoryPorts module member decl declared other isOther port isPort otherNamed
    exact ⟨atOwn, atOther⟩
  · rintro ⟨atSpot, atPort⟩
    refine ⟨_, (renamed.declarationAt?_eq_some atHome).mpr ⟨_, atSpot, rfl⟩, rfl, ?_⟩
    rw [MemDecl.portsIn_renamed, List.getElem?_map, atPort]
    rfl

theorem designates_memoryPort {decl : MemDecl} (declared : .mem decl ∈ module.declarations) {port : String}
    (isPort : port ∈ decl.portNames) :
    out.Designates home
        (.subfield (.ref (names (.reference ((circuit.home module).reference decl.name))))
          (names (.reference (((circuit.home module).reference decl.name).field port)))) referent ↔
      ∃ spot role index, circuit.declarationAt? home spot = some (.mem decl) ∧
        (decl.portsIn role)[index]? = some port ∧ referent = .memoryPort home spot role index := by
  have sameSpot := fun spot => @declared_iff _ _ _ renamed _ _ atHome apart _ declared spot
  have samePort := fun spot role index =>
    @memoryPort_iff _ _ _ renamed _ _ atHome apart _ declared _ isPort spot role index
  constructor
  · intro designates
    rcases designates.of_field with ⟨spot, result, place, index, atSpot, -, -, -⟩ |
      ⟨spot, result, role, index, atSpot, named, atPort, rfl⟩
    · have atOwn := (sameSpot spot).mp ⟨_, atSpot, rfl⟩
      obtain ⟨own, same, memory⟩ := (renamed.declarationAt?_eq_some atHome).mp atSpot
      obtain rfl := Option.some.inj (atOwn.symm.trans same)
      cases memory
    · obtain ⟨atOwn, atOwnPort⟩ := (samePort spot role index).mp ⟨result, atSpot, named, atPort⟩
      exact ⟨spot, role, index, atOwn, atOwnPort, rfl⟩
  · rintro ⟨spot, role, index, atSpot, atPort, rfl⟩
    obtain ⟨result, atResult, named, atResultPort⟩ := (samePort spot role index).mpr ⟨atSpot, atPort⟩
    exact named ▸ .memoryPort atResult atResultPort

theorem designates_memorySignal {decl : MemDecl} (declared : .mem decl ∈ module.declarations) {port : String}
    (isPort : port ∈ decl.portNames) {signal : String} :
    out.Designates home
        (.subfield (.subfield (.ref (names (.reference ((circuit.home module).reference decl.name))))
          (names (.reference (((circuit.home module).reference decl.name).field port)))) signal) referent ↔
      ∃ spot role index, circuit.declarationAt? home spot = some (.mem decl) ∧
        (decl.portsIn role)[index]? = some port ∧ referent = .memorySignal home spot role index signal := by
  have samePort := fun spot role index =>
    @memoryPort_iff _ _ _ renamed _ _ atHome apart _ declared _ isPort spot role index
  constructor
  · intro designates
    obtain ⟨spot, result, role, index, atSpot, named, atPort, rfl⟩ := designates.of_signal
    obtain ⟨atOwn, atOwnPort⟩ := (samePort spot role index).mp ⟨result, atSpot, named, atPort⟩
    exact ⟨spot, role, index, atOwn, atOwnPort, rfl⟩
  · rintro ⟨spot, role, index, atSpot, atPort, rfl⟩
    obtain ⟨result, atResult, named, atResultPort⟩ := (samePort spot role index).mpr ⟨atSpot, atPort⟩
    exact named ▸ .memorySignal atResult atResultPort

/-- The instances of a result are instances of the modules in the places where those stood. -/
theorem instantiates_iff {spot : Spot} {place : Nat}
    (complete : ∀ name callee, .inst name callee ∈ module.declarations →
      ∃ other ∈ circuit.modules, other.name = callee) :
    circuit.Instantiates home spot place ↔ out.Instantiates home spot place := by
  constructor
  · rintro ⟨name, callee, atSpot, atPlace⟩
    obtain ⟨result, atResult, named, -⟩ := getElem?_of_forall₂_left renamed.modules atPlace
    have inst := (renamed.declarationAt?_eq_some atHome).mpr ⟨_, atSpot, rfl⟩
    rw [Declaration.renamed] at inst
    exact ⟨_, result, named ▸ inst, atResult⟩
  · rintro ⟨name, result, atSpot, atResult⟩
    obtain ⟨callee, atPlace, named, -⟩ := getElem?_of_forall₂_right renamed.modules atResult
    obtain ⟨own, atOwn, same⟩ := (renamed.declarationAt?_eq_some atHome).mp atSpot
    have declared := Circuit.mem_of_declarationAt? atHome atOwn
    cases own with
    | signal name => cases same
    | mem decl => cases same
    | inst name calleeName =>
      obtain ⟨other, member, rfl⟩ := complete name calleeName declared
      have sameName := (Declaration.inst.inj same).2.trans named
      obtain rfl := apart.modules other member callee (List.mem_of_getElem? atPlace) sameName
      exact ⟨name, other, atOwn, atPlace⟩

end Renaming

namespace Plan

variable {circuit : Circuit} {order : List Module} (plan : Plan) (ready : circuit.Ready order)
include ready

/-- What is not declared has no name but its own. -/
theorem naming_undeclared {target : Target} (names : target.Identified)
    (undeclared : target ∉ declared (circuit.actions order)) :
    plan.naming circuit order target = target.terminalName :=
  perform_name_of_ne (Circuit.text_ne_of_undeclared ready.identified ready.ordered names undeclared)

/-- The ports of an external module, all that it declares, keep their names. -/
theorem naming_external {module : ExternalModule} (member : .external module ∈ order)
    {declaration : Declaration} (declared : declaration ∈ (Module.external module).declarations) :
    ∃ name, declaration = .signal name ∧
      plan.naming circuit order (.reference ((ModuleTarget.mk circuit.main module.name).reference name)) =
        name := by
  have inCircuit := ready.ordered.members _ member
  obtain ⟨port, isPort, rfl⟩ := Module.external_declarations declared
  have portOk : isIdentifier port.name = true :=
    ready.identified.modules _ inCircuit port.name (List.mem_cons_of_mem _ (List.mem_map_of_mem isPort))
  have identified := ready.identified.reference (ready.identified.moduleName inCircuit) portOk
  refine ⟨port.name, rfl, plan.naming_undeclared ready identified fun inside => ?_⟩
  rw [Circuit.declared_actions] at inside
  rcases List.mem_cons.mp inside with same | inside
  · cases same
  · obtain ⟨other, otherMember, inside⟩ := List.mem_flatMap.mp inside
    have named : module.name = other.name := Option.some.inj (Module.moduleName?_of_mem inside)
    obtain rfl := List.inj_on_of_nodup_map ready.ordered.nodup member otherMember named
    simp [Module.targets] at inside

variable (all : order.Perm circuit.modules)
include all

/-- A run renames, and what it calls an entity it calls it everywhere. -/
theorem renameCircuit_renaming {orderOf : Circuit → Except Fault (List Module)}
    (asked : orderOf circuit = .ok order) {out : Circuit} {renames : Ledger}
    (run : plan.renameCircuit orderOf circuit = .ok (out, renames)) :
    Renaming (plan.naming circuit order) circuit out := by
  obtain ⟨main, -, followed⟩ := (plan.renameCircuit_eq_ok ready all asked).mp run
  refine ⟨main, forall₂_imp_of_mem followed fun module inCircuit result gave =>
    ⟨follow_name gave, fun spot => ?_⟩⟩
  cases module with
  | regular module =>
    obtain ⟨own, rfl, renamed⟩ := follow_regular gave
    exact renamed.declarationAt? spot
  | external module =>
    obtain rfl := follow_external gave
    have same (name : String) : (Module.external { module with name := name }).declarationAt? spot =
        (Module.external module).declarationAt? spot := by cases spot <;> rfl
    rw [same]
    cases found : (Module.external module).declarationAt? spot with
    | none => rfl
    | some declaration =>
      have member := all.mem_iff.mpr inCircuit
      obtain ⟨port, rfl, kept⟩ := plan.naming_external ready member (Module.mem_of_declarationAt? found)
      exact congrArg (some <| Declaration.signal ·) kept.symm

/-- The names that a fair rule picks keep apart what was apart. -/
theorem naming_separates (fair : plan.rule.Fair) : circuit.Separates (plan.naming circuit order) where
  modules := by
    intro module member other otherMember same
    have distinct := plan.naming_modules_nodup fair ready
    exact List.inj_on_of_nodup_map distinct (all.mem_iff.mpr member) (all.mem_iff.mpr otherMember) same
  declarations := by
    intro module member first isFirst second isSecond same
    have placed := all.mem_iff.mpr member
    cases module with
    | regular module =>
      exact List.inj_on_of_nodup_map (plan.naming_declarations_nodup fair ready placed) isFirst isSecond same
    | external module =>
      obtain ⟨name, rfl, kept⟩ := plan.naming_external ready placed isFirst
      obtain ⟨other, rfl, otherKept⟩ := plan.naming_external ready placed isSecond
      rw [kept.symm.trans (same.trans otherKept)]
  memoryPorts := by
    intro module member decl declared first isFirst second isSecond same
    have placed := all.mem_iff.mpr member
    cases module with
    | regular module =>
      have declares := RegularModule.mem_mem_declarations.mp declared
      exact List.inj_on_of_nodup_map (plan.naming_memoryPorts_nodup fair ready placed declares)
        isFirst isSecond same
    | external module => simp [Module.declarations, Module.statements] at declared

end Plan

end CircuitNames
