import CircuitNames.Proofs.ExpressionUses

namespace CircuitNames

/-- A declaration by its position in a module: among the ports, or among the statements at all depths. -/
inductive Spot where
  | port (index : Nat)
  | stmt (index : Nat)
deriving DecidableEq

/-- The three lists that a memory keeps its ports in. -/
inductive PortRole where
  | reader
  | writer
  | readwriter
deriving DecidableEq

/-- A memory's ports of one role, in their order. -/
def MemDecl.portsIn (decl : MemDecl) : PortRole → List String
  | .reader => decl.readers
  | .writer => decl.writers
  | .readwriter => decl.readwriters

namespace Module

def ports : Module → List Port
  | .regular module => module.ports
  | .external module => module.ports

def statements : Module → List Stmt
  | .regular module => module.statements
  | .external _ => []

def declarations (module : Module) : List Declaration :=
  module.ports.map (fun port => .signal port.name) ++ module.statements.filterMap Stmt.declaration?

/-- The declaration at a place of a module, if there is one. -/
def declarationAt? (module : Module) : Spot → Option Declaration
  | .port index => module.ports[index]?.map fun port => .signal port.name
  | .stmt index => module.statements[index]?.bind Stmt.declaration?

theorem mem_of_declarationAt? {module : Module} {spot : Spot} {declaration : Declaration}
    (atSpot : module.declarationAt? spot = some declaration) : declaration ∈ module.declarations := by
  rw [declarations, List.mem_append]
  cases spot with
  | port index =>
    obtain ⟨port, found, rfl⟩ := Option.map_eq_some_iff.mp atSpot
    exact Or.inl (List.mem_map_of_mem (List.mem_of_getElem? found))
  | stmt index =>
    obtain ⟨stmt, found, declares⟩ := Option.bind_eq_some_iff.mp atSpot
    exact Or.inr (List.mem_filterMap.mpr ⟨stmt, List.mem_of_getElem? found, declares⟩)

theorem exists_declarationAt? {module : Module} {declaration : Declaration}
    (declared : declaration ∈ module.declarations) :
    ∃ spot, module.declarationAt? spot = some declaration := by
  rcases List.mem_append.mp declared with isPort | inStmt
  · obtain ⟨port, inside, rfl⟩ := List.mem_map.mp isPort
    obtain ⟨index, found⟩ := List.getElem?_of_mem inside
    exact ⟨.port index, Option.map_eq_some_iff.mpr ⟨port, found, rfl⟩⟩
  · obtain ⟨stmt, inside, declares⟩ := List.mem_filterMap.mp inStmt
    obtain ⟨index, found⟩ := List.getElem?_of_mem inside
    exact ⟨.stmt index, Option.bind_eq_some_iff.mpr ⟨stmt, found, declares⟩⟩

theorem inst_mem_declarations {module : Module} {edge : InstanceEdge} :
    .inst edge.inst edge.module ∈ module.declarations ↔ edge ∈ module.instances := by
  cases module with
  | regular module => exact RegularModule.inst_mem_declarations
  | external module => simp [declarations, ports, statements, instances]

/-- An external module declares nothing but its ports. -/
theorem external_declarations {module : ExternalModule} {declaration : Declaration}
    (declared : declaration ∈ (external module).declarations) :
    ∃ port ∈ module.ports, declaration = .signal port.name := by
  obtain ⟨port, isPort, rfl⟩ : ∃ port ∈ module.ports, .signal port.name = declaration := by
    simpa [declarations, ports, statements] using declared
  exact ⟨port, isPort, rfl⟩

theorem names_of_declaration {module : Module} {declaration : Declaration}
    (member : declaration ∈ module.declarations) :
    ∀ name ∈ declaration.names, name ∈ module.names := by
  cases module with
  | regular module => exact RegularModule.names_of_declaration member
  | external module =>
    obtain ⟨port, isPort, rfl⟩ := external_declarations member
    intro name holds
    obtain rfl := List.mem_singleton.mp holds
    exact List.mem_cons_of_mem _ (List.mem_map_of_mem isPort)

end Module

theorem MemDecl.mem_portNames_of_portsIn {decl : MemDecl} {role : PortRole} {index : Nat} {port : String}
    (atPort : (decl.portsIn role)[index]? = some port) : port ∈ decl.portNames := by
  have member := List.mem_of_getElem? atPort
  cases role <;> simp_all [portsIn, portNames]

def Circuit.declarationAt? (circuit : Circuit) (home : Nat) (spot : Spot) : Option Declaration :=
  circuit.modules[home]?.bind (·.declarationAt? spot)

theorem Circuit.mem_of_declarationAt? {circuit : Circuit} {home : Nat} {module : Module}
    (atHome : circuit.modules[home]? = some module) {spot : Spot} {declaration : Declaration}
    (atSpot : circuit.declarationAt? home spot = some declaration) : declaration ∈ module.declarations := by
  obtain ⟨other, atOther, atSpot⟩ := Option.bind_eq_some_iff.mp atSpot
  obtain rfl := Option.some.inj (atHome.symm.trans atOther)
  exact Module.mem_of_declarationAt? atSpot

/-- What is declared at a position of a module is an instance of the module at a place. -/
def Circuit.Instantiates (circuit : Circuit) (home : Nat) (spot : Spot) (place : Nat) : Prop :=
  ∃ name callee, circuit.declarationAt? home spot = some (.inst name callee.name) ∧
    circuit.modules[place]? = some callee

/-- What a use can designate, by position. The signals of a memory port are no declarations; their names
are their own. -/
inductive Referent where
  | declaration (home : Nat) (spot : Spot)
  | instancePort (home : Nat) (spot : Spot) (callee port : Nat)
  | memoryPort (home : Nat) (spot : Spot) (role : PortRole) (port : Nat)
  | memorySignal (home : Nat) (spot : Spot) (role : PortRole) (port : Nat) (signal : String)
deriving DecidableEq

namespace Circuit

variable {circuit : Circuit} {home : Nat}

/-- What a use in the module at some position designates by the declarations of the circuit: a name
designates what is declared under it in the module, a field of an instance a port of the module of that
name, a field of a memory one of its ports. -/
inductive Designates (circuit : Circuit) (home : Nat) : Expr → Referent → Prop
  | plain {spot : Spot} {declaration : Declaration}
      (atSpot : circuit.declarationAt? home spot = some declaration) :
      Designates circuit home (.ref declaration.name) (.declaration home spot)
  | instancePort {spot : Spot} {root port : String} {callee : Module} {place index : Nat}
      (atSpot : circuit.declarationAt? home spot = some (.inst root callee.name))
      (atPlace : circuit.modules[place]? = some callee)
      (atPort : callee.declarationAt? (.port index) = some (.signal port)) :
      Designates circuit home (.subfield (.ref root) port) (.instancePort home spot place index)
  | memoryPort {spot : Spot} {decl : MemDecl} {role : PortRole} {index : Nat} {port : String}
      (atSpot : circuit.declarationAt? home spot = some (.mem decl))
      (atPort : (decl.portsIn role)[index]? = some port) :
      Designates circuit home (.subfield (.ref decl.name) port) (.memoryPort home spot role index)
  | memorySignal {spot : Spot} {decl : MemDecl} {role : PortRole} {index : Nat} {port signal : String}
      (atSpot : circuit.declarationAt? home spot = some (.mem decl))
      (atPort : (decl.portsIn role)[index]? = some port) :
      Designates circuit home (.subfield (.subfield (.ref decl.name) port) signal)
        (.memorySignal home spot role index signal)

namespace Designates

variable {referent : Referent}

theorem of_ref {name : String} (designates : circuit.Designates home (.ref name) referent) :
    ∃ spot declaration, circuit.declarationAt? home spot = some declaration ∧ declaration.name = name ∧
      referent = .declaration home spot := by
  generalize same : Expr.ref name = use at designates
  cases designates with
  | plain atSpot => exact ⟨_, _, atSpot, (Expr.ref.inj same).symm, rfl⟩
  | instancePort _ _ _ => cases same
  | memoryPort _ _ => cases same
  | memorySignal _ _ => cases same

/-- A field of a name is a port of an instance or of a memory, depending on what declares the name. -/
theorem of_field {root field : String}
    (designates : circuit.Designates home (.subfield (.ref root) field) referent) :
    (∃ spot callee place index, circuit.declarationAt? home spot = some (.inst root callee.name) ∧
      circuit.modules[place]? = some callee ∧ callee.declarationAt? (.port index) = some (.signal field) ∧
      referent = .instancePort home spot place index) ∨
    ∃ spot decl role index, circuit.declarationAt? home spot = some (.mem decl) ∧ decl.name = root ∧
      (decl.portsIn role)[index]? = some field ∧ referent = .memoryPort home spot role index := by
  generalize same : Expr.subfield (.ref root) field = use at designates
  cases designates with
  | plain _ => cases same
  | instancePort atSpot atPlace atPort =>
    obtain ⟨sameRoot, rfl⟩ := Expr.subfield.inj same
    obtain rfl := Expr.ref.inj sameRoot
    exact Or.inl ⟨_, _, _, _, atSpot, atPlace, atPort, rfl⟩
  | memoryPort atSpot atPort =>
    obtain ⟨sameRoot, rfl⟩ := Expr.subfield.inj same
    exact Or.inr ⟨_, _, _, _, atSpot, (Expr.ref.inj sameRoot).symm, atPort, rfl⟩
  | memorySignal _ _ => cases (Expr.subfield.inj same).1

/-- A field below a field is a signal of a memory's port: nothing else has two levels of fields. -/
theorem of_signal {root port signal : String}
    (designates : circuit.Designates home (.subfield (.subfield (.ref root) port) signal) referent) :
    ∃ spot decl role index, circuit.declarationAt? home spot = some (.mem decl) ∧ decl.name = root ∧
      (decl.portsIn role)[index]? = some port ∧ referent = .memorySignal home spot role index signal := by
  generalize same : Expr.subfield (.subfield (.ref root) port) signal = use at designates
  cases designates with
  | plain _ => cases same
  | instancePort _ _ _ => cases (Expr.subfield.inj same).1
  | memoryPort _ _ => cases (Expr.subfield.inj same).1
  | memorySignal atSpot atPort =>
    obtain ⟨sameBase, rfl⟩ := Expr.subfield.inj same
    obtain ⟨sameRoot, rfl⟩ := Expr.subfield.inj sameBase
    exact ⟨_, _, _, _, atSpot, (Expr.ref.inj sameRoot).symm, atPort, rfl⟩

end Designates

end Circuit

end CircuitNames
