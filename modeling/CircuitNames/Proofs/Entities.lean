import CircuitNames.Proofs.Places

namespace CircuitNames

/-- Something declared: where it stands, and its target. -/
structure Entity where
  place : Place
  target : Target
deriving DecidableEq

namespace MemDecl

/-- The ports of a memory with their positions: readers, then writers, then the ports that do both. -/
def portPlaces (decl : MemDecl) : List (PortRole × Nat × String) :=
  [PortRole.reader, .writer, .readwriter].flatMap fun role =>
    (decl.portsIn role).zipIdx.map fun (port, index) => (role, index, port)

theorem map_portPlaces (decl : MemDecl) : decl.portPlaces.map (·.2.2) = decl.portNames := by
  simp [portPlaces, portsIn, portNames, Function.comp_def, List.zipIdx_map_fst]

theorem mem_portPlaces {decl : MemDecl} {role : PortRole} {index : Nat} {port : String} :
    (role, index, port) ∈ decl.portPlaces ↔ (decl.portsIn role)[index]? = some port := by
  cases role <;> simp [portPlaces, List.mem_zipIdx_iff_getElem?]

end MemDecl

namespace RegularModule

/-- What a module declares, with its positions. -/
def spots (module : RegularModule) : List (Spot × Declaration) :=
  module.ports.zipIdx.map (fun (port, index) => (.port index, .signal port.name)) ++
    module.statements.zipIdx.filterMap fun (stmt, index) => stmt.declaration?.map (Spot.stmt index, ·)

theorem map_spots (module : RegularModule) : module.spots.map Prod.snd = module.declarations := by
  have ports (from_ : Nat) (ports : List Port) :
      (ports.zipIdx from_).map (fun entry => Declaration.signal entry.1.name) =
      ports.map fun port => .signal port.name := by
    induction ports generalizing from_ with
    | nil => rfl
    | cons port rest ih => rw [List.zipIdx_cons, List.map_cons, List.map_cons, ih]
  have statements (from_ : Nat) (stmts : List Stmt) :
      (stmts.zipIdx from_).filterMap (fun entry => entry.1.declaration?) =
      stmts.filterMap Stmt.declaration? := by
    induction stmts generalizing from_ with
    | nil => rfl
    | cons stmt rest ih => rw [List.zipIdx_cons, List.filterMap_cons, List.filterMap_cons, ih]
  simp only [spots, declarations, List.map_append, List.map_map, List.map_filterMap, Option.map_map,
    Function.comp_def, Option.map_id', ports, statements]

theorem mem_spots {module : RegularModule} {spot : Spot} {declaration : Declaration} :
    (spot, declaration) ∈ module.spots ↔ (Module.regular module).declarationAt? spot = some declaration := by
  cases spot with
  | port index => simp [spots, Module.declarationAt?, Module.ports, List.mem_zipIdx_iff_getElem?]
  | stmt index =>
    simp [spots, Module.declarationAt?, Module.statements, List.mem_zipIdx_iff_getElem?,
      Option.bind_eq_some_iff]

end RegularModule

variable {home : ModuleTarget} {position : Nat} {entity : Entity}

/-- A declaration and, of a memory, its ports. -/
def Declaration.entities (home : ModuleTarget) (position : Nat) (spot : Spot) (declaration : Declaration) :
    List Entity :=
  ⟨.declaration position spot, declaration.target home⟩ ::
    match declaration with
    | .mem decl =>
      let memory := home.reference decl.name
      decl.portPlaces.map fun (role, index, port) =>
        ⟨.memoryPort position spot role index, .reference (memory.field port)⟩
    | _ => []

/-- An external module declares nothing but its name. -/
def Module.entities (main : String) (position : Nat) : Module → List Entity
  | .external module => [⟨.module position, .module ⟨main, module.name⟩⟩]
  | .regular module =>
    let home : ModuleTarget := ⟨main, module.name⟩
    ⟨.module position, .module home⟩ ::
      module.spots.flatMap fun (spot, declaration) => declaration.entities home position spot

/-- All that a circuit declares, each thing with its place: the circuit, its modules, and what stands in the
regular ones at any depth. -/
def Circuit.entities (circuit : Circuit) : List Entity :=
  ⟨.circuit, .circuit circuit.main⟩ ::
    circuit.modules.zipIdx.flatMap fun (module, position) => module.entities circuit.main position

theorem Declaration.map_entities (home : ModuleTarget) (position : Nat) (spot : Spot)
    (declaration : Declaration) :
    (declaration.entities home position spot).map Entity.target = declaration.targets home := by
  cases declaration with
  | signal name => rfl
  | inst name callee => rfl
  | mem decl =>
    simp only [entities, targets, portTargets, List.map_cons, List.map_map, ← MemDecl.map_portPlaces]
    rfl

theorem Module.map_entities (main : String) (position : Nat) (module : Module) :
    (module.entities main position).map Entity.target = module.targets main := by
  cases module with
  | external module => rfl
  | regular module =>
    simp only [entities, targets, List.map_cons, List.map_flatMap, Declaration.map_entities,
      ← RegularModule.map_spots, List.flatMap_map]

/-- Without their places the entities are the targets that a sweep declares. -/
theorem Circuit.map_entities (circuit : Circuit) :
    circuit.entities.map Entity.target =
      .circuit circuit.main :: circuit.modules.flatMap (Module.targets circuit.main) := by
  have modules (from_ : Nat) (modules : List Module) :
      (modules.zipIdx from_).flatMap (fun entry => entry.1.targets circuit.main) =
        modules.flatMap (Module.targets circuit.main) := by
    induction modules generalizing from_ with
    | nil => rfl
    | cons module rest ih => rw [List.zipIdx_cons, List.flatMap_cons, List.flatMap_cons, ih]
  simp only [entities, List.map_cons, List.map_flatMap, Module.map_entities, modules]

/-- A sweep declares the targets of all entities, in any order of the modules. -/
theorem Circuit.mem_declared_iff {circuit : Circuit} {order : List Module} (all : order.Perm circuit.modules)
    {target : Target} :
    target ∈ declared (circuit.actions order) ↔ ∃ entity ∈ circuit.entities, entity.target = target := by
  rw [declared_actions, ((all.flatMap_right _).cons _).mem_iff, ← map_entities, List.mem_map]

theorem Declaration.mem_entities {spot : Spot} {declaration : Declaration} :
    entity ∈ declaration.entities home position spot ↔
      entity = ⟨.declaration position spot, declaration.target home⟩ ∨
        ∃ decl role index port, declaration = .mem decl ∧ (decl.portsIn role)[index]? = some port ∧
          entity = ⟨.memoryPort position spot role index,
            .reference ((home.reference decl.name).field port)⟩ := by
  cases declaration with
  | signal name => simp [entities]
  | inst name callee => simp [entities]
  | mem decl =>
    simp only [entities, List.mem_cons, List.mem_map, Prod.exists, MemDecl.mem_portPlaces,
      Declaration.mem.injEq, exists_and_left, exists_eq_left']
    tauto

namespace Circuit

variable {circuit : Circuit}

/-- What a circuit declares, kind by kind. -/
inductive Declares (circuit : Circuit) : Entity → Prop
  | circuit : Declares circuit ⟨.circuit, .circuit circuit.main⟩
  | module {position : Nat} {module : Module} (atHome : circuit.modules[position]? = some module) :
      Declares circuit ⟨.module position, .module (circuit.home module)⟩
  | declaration {position : Nat} {module : RegularModule} {spot : Spot} {declaration : Declaration}
      (atHome : circuit.modules[position]? = some (.regular module))
      (atSpot : (Module.regular module).declarationAt? spot = some declaration) :
      Declares circuit ⟨.declaration position spot, declaration.target (circuit.home (.regular module))⟩
  | memoryPort {position : Nat} {module : RegularModule} {spot : Spot} {decl : MemDecl}
      {role : PortRole} {index : Nat}
      {port : String} (atHome : circuit.modules[position]? = some (.regular module))
      (atSpot : (Module.regular module).declarationAt? spot = some (.mem decl))
      (atPort : (decl.portsIn role)[index]? = some port) :
      Declares circuit ⟨.memoryPort position spot role index,
        .reference (((circuit.home (.regular module)).reference decl.name).field port)⟩

theorem mem_entities : entity ∈ circuit.entities ↔ circuit.Declares entity := by
  constructor
  · intro inside
    rcases List.mem_cons.mp inside with rfl | inside
    · exact .circuit
    obtain ⟨⟨module, position⟩, atHome, inside⟩ := List.mem_flatMap.mp inside
    rw [List.mem_zipIdx_iff_getElem?] at atHome
    cases module with
    | external module => exact List.mem_singleton.mp inside ▸ .module atHome
    | regular module =>
      rcases List.mem_cons.mp inside with rfl | inside
      · exact .module atHome
      obtain ⟨⟨spot, declaration⟩, atSpot, inside⟩ := List.mem_flatMap.mp inside
      rw [RegularModule.mem_spots] at atSpot
      rcases Declaration.mem_entities.mp inside with rfl | ⟨decl, role, index, port, rfl, atPort, rfl⟩
      · exact .declaration atHome atSpot
      · exact .memoryPort atHome atSpot atPort
  · intro declares
    have inModule {position : Nat} {module : Module} (atHome : circuit.modules[position]? = some module)
        {entity : Entity} (inside : entity ∈ module.entities circuit.main position) :
          entity ∈ circuit.entities :=
      List.mem_cons_of_mem _ <|
        List.mem_flatMap.mpr ⟨(module, position), List.mem_zipIdx_iff_getElem?.mpr atHome, inside⟩
    cases declares with
    | circuit => exact List.mem_cons_self
    | @module position module atHome => cases module <;> exact inModule atHome List.mem_cons_self
    | declaration atHome atSpot =>
      refine inModule atHome
        (List.mem_cons_of_mem _ (List.mem_flatMap.mpr ⟨_, RegularModule.mem_spots.mpr atSpot, ?_⟩))
      exact List.mem_cons_self
    | memoryPort atHome atSpot atPort =>
      refine inModule atHome
        (List.mem_cons_of_mem _ (List.mem_flatMap.mpr ⟨_, RegularModule.mem_spots.mpr atSpot, ?_⟩))
      exact Declaration.mem_entities.mpr (Or.inr ⟨_, _, _, _, rfl, atPort, rfl⟩)

/-- What is declared stands in its place, under its target. -/
theorem addressed_of_mem_entities (inside : entity ∈ circuit.entities) :
    ∃ address, circuit.addressAt? entity.place = some address ∧ address.target = entity.target := by
  cases mem_entities.mp inside with
  | circuit => exact ⟨.circuit circuit.main, rfl, rfl⟩
  | @module position module atHome => exact ⟨.module (circuit.home module), by simp [addressAt?, atHome], rfl⟩
  | @declaration position module spot declaration atHome atSpot =>
    refine ⟨declaration.address (circuit.home (.regular module)), ?_, declaration.target_address _⟩
    simp [addressAt?, atHome, atSpot]
  | @memoryPort position module spot decl role index port atHome atSpot atPort =>
    refine ⟨.port (circuit.home (.regular module)) decl.name port, ?_, rfl⟩
    simp [addressAt?, atHome, atSpot, Declaration.portAt?, atPort]

/-- Everything that has an address is declared, except the ports of external modules. -/
theorem exists_entity {place : Place} {address : Address} (atPlace : circuit.addressAt? place = some address)
    (own : ∀ home spot module, place = .declaration home spot →
      circuit.modules[home]? ≠ some (.external module)) :
    ∃ entity ∈ circuit.entities, entity.place = place := by
  cases place with
  | circuit => exact ⟨_, mem_entities.mpr .circuit, rfl⟩
  | module home =>
    obtain ⟨module, atHome, rfl⟩ := Option.map_eq_some_iff.mp atPlace
    exact ⟨_, mem_entities.mpr (.module atHome), rfl⟩
  | declaration home spot =>
    obtain ⟨module, atHome, atPlace⟩ := Option.bind_eq_some_iff.mp atPlace
    obtain ⟨declaration, atSpot, rfl⟩ := Option.map_eq_some_iff.mp atPlace
    cases module with
    | external module => exact absurd atHome (own home spot module rfl)
    | regular module => exact ⟨_, mem_entities.mpr (.declaration atHome atSpot), rfl⟩
  | memoryPort home spot role index =>
    obtain ⟨module, atHome, atPlace⟩ := Option.bind_eq_some_iff.mp atPlace
    obtain ⟨declaration, atSpot, atPlace⟩ := Option.bind_eq_some_iff.mp atPlace
    cases declaration with
    | signal name => cases atPlace
    | inst name callee => cases atPlace
    | mem decl =>
      obtain ⟨port, atPort, rfl⟩ := Option.map_eq_some_iff.mp atPlace
      cases module with
      | external module =>
        obtain ⟨port, -, same⟩ := Module.external_declarations (Module.mem_of_declarationAt? atSpot)
        cases same
      | regular module => exact ⟨_, mem_entities.mpr (.memoryPort atHome atSpot atPort), rfl⟩

/-- The name of what is declared at a place. -/
def nameAt? (circuit : Circuit) (place : Place) : Option String :=
  (circuit.addressAt? place).map fun address => address.target.terminalName

theorem nameAt?_of_mem_entities (inside : entity ∈ circuit.entities) :
    circuit.nameAt? entity.place = some entity.target.terminalName := by
  obtain ⟨address, atPlace, same⟩ := addressed_of_mem_entities inside
  rw [nameAt?, atPlace, ← same]
  rfl

end Circuit

/-- A renamed circuit calls each entity what the names call its target. -/
theorem Renaming.nameAt?_of_mem_entities {names : Target → String} {circuit out : Circuit}
    (renamed : Renaming names circuit out) (inside : entity ∈ circuit.entities) :
    out.nameAt? entity.place = some (names entity.target) := by
  obtain ⟨address, atPlace, same⟩ := Circuit.addressed_of_mem_entities inside
  have last := congrArg Target.terminalName (address.withTerminalName_renamed names)
  rw [Target.terminalName_withTerminalName, same] at last
  rw [Circuit.nameAt?, renamed.addressAt?_eq, atPlace]
  exact congrArg some last.symm

end CircuitNames
