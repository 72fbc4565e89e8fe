import CircuitNames.Circuit.Hierarchy
import CircuitNames.Rename.Sweep

namespace CircuitNames

/-- What a statement declares. Wires, registers and nodes differ in nothing that a name depends on. -/
inductive Declaration where
  | signal (name : String)
  | inst (name module : String)
  | mem (decl : MemDecl)

namespace Declaration

def name : Declaration → String
  | signal name | inst name _ => name
  | mem decl => decl.name

/-- Every name it holds: its own, that of the module it instantiates, those of its ports. -/
def names : Declaration → List String
  | signal name => [name]
  | inst name module => [name, module]
  | mem decl => decl.name :: decl.portNames

theorem name_mem_names (declaration : Declaration) : declaration.name ∈ declaration.names := by
  cases declaration <;> exact List.mem_cons_self

def target (home : ModuleTarget) : Declaration → Target
  | signal name => .reference (home.reference name)
  | inst name module => .inst (home.inst name module)
  | mem decl => .reference (home.reference decl.name)

/-- The ports of a memory; nothing else declares names below its own. -/
def portNames : Declaration → List String
  | mem decl => decl.portNames
  | _ => []

/-- The targets of a memory's ports; other declarations have none. -/
def portTargets (home : ModuleTarget) : Declaration → List Target
  | mem decl => decl.portNames.map fun port => .reference ((home.reference decl.name).field port)
  | _ => []

end Declaration

namespace Expr

mutual

/-- The names in an expression. -/
def names : Expr → List String
  | ref name => [name]
  | subfield base name => names base ++ [name]
  | uintLit .. | sintLit .. => []
  | prim _ args _ => namesAll args
  | mux cond whenTrue whenFalse => names cond ++ names whenTrue ++ names whenFalse
  | validIf cond value => names cond ++ names value

def namesAll : List Expr → List String
  | [] => []
  | expr :: rest => names expr ++ namesAll rest

end

def Identified (expr : Expr) : Prop := ∀ name ∈ expr.names, isIdentifier name = true

end Expr

namespace Stmt

def declaration? : Stmt → Option Declaration
  | wire name _ | reg name .. | node name _ => some (.signal name)
  | inst name module => some (.inst name module)
  | mem decl => some (.mem decl)
  | _ => none

/-- The expressions a statement holds itself, in the order in which they are written. -/
def ownExprs : Stmt → List Expr
  | reg _ _ clock none => [clock]
  | reg _ _ clock (some reset) => [clock, reset.signal, reset.init]
  | node _ value => [value]
  | connect loc expr => [loc, expr]
  | invalidate expr => [expr]
  | when cond _ _ => [cond]
  | stop clock en _ => [clock, en]
  | print clock en _ args => clock :: en :: args
  | _ => []

/-- The names in a statement, without those in the statements it holds. -/
def names (stmt : Stmt) : List String :=
  (stmt.declaration?.map Declaration.names).getD [] ++ stmt.ownExprs.flatMap Expr.names

theorem declaredName?_eq (stmt : Stmt) : stmt.declaredName? = stmt.declaration?.map Declaration.name := by
  cases stmt <;> rfl

theorem declaration?_eq_mem {stmt : Stmt} {decl : MemDecl} :
    stmt.declaration? = some (.mem decl) ↔ stmt = .mem decl := by
  cases stmt <;> simp [declaration?]

theorem edge?_eq_some {stmt : Stmt} {edge : InstanceEdge} :
    stmt.edge? = some edge ↔ stmt.declaration? = some (.inst edge.inst edge.module) := by
  obtain ⟨inst, module⟩ := edge
  cases stmt <;> simp [declaration?, edge?]

end Stmt

namespace RegularModule

/-- All statements at any depth, each before those it holds. -/
def statements (module : RegularModule) : List Stmt := Stmt.walkAll module.body

/-- What a module declares: its ports, then what its statements declare. A port is referred to as a wire
is. -/
def declarations (module : RegularModule) : List Declaration :=
  module.ports.map (fun port => .signal port.name) ++ module.statements.filterMap Stmt.declaration?

theorem declaredNames_eq (module : RegularModule) :
    module.declaredNames = module.declarations.map Declaration.name := by
  have same : Stmt.declaredName? = fun stmt => stmt.declaration?.map Declaration.name :=
    funext Stmt.declaredName?_eq
  rw [declaredNames, declarations, statements, List.map_append, List.map_map, List.map_filterMap, same]
  rfl

theorem mem_declarations {module : RegularModule} {declaration : Declaration} :
    declaration ∈ module.declarations ↔
      (∃ port ∈ module.ports, declaration = .signal port.name) ∨
        ∃ stmt ∈ module.statements, stmt.declaration? = some declaration := by
  simp only [declarations, List.mem_append, List.mem_map, List.mem_filterMap, eq_comm]

theorem mem_mem_declarations {module : RegularModule} {decl : MemDecl} :
    .mem decl ∈ module.declarations ↔ .mem decl ∈ module.statements := by
  simp [mem_declarations, Stmt.declaration?_eq_mem]

theorem inst_mem_declarations {module : RegularModule} {edge : InstanceEdge} :
    .inst edge.inst edge.module ∈ module.declarations ↔ edge ∈ (Module.regular module).instances := by
  simp [mem_declarations, Module.instances, statements, Stmt.edge?_eq_some]

/-- The names of ports and declarations are distinct, and so are those of the ports of each memory. -/
structure Distinct (module : RegularModule) : Prop where
  declared : module.declaredNames.Nodup
  memories : ∀ decl, .mem decl ∈ module.statements → decl.portNames.Nodup

/-- A module's names are distinct when its declarations have distinct names and each memory's ports have, too.
-/
theorem distinct_iff {module : RegularModule} : module.Distinct ↔
    module.declaredNames.Nodup ∧ ∀ declaration ∈ module.declarations, declaration.portNames.Nodup := by
  constructor
  · intro ⟨declared, memories⟩
    refine ⟨declared, fun declaration inside => ?_⟩
    cases declaration with
    | signal name => exact List.nodup_nil
    | inst name callee => exact List.nodup_nil
    | mem decl => exact memories decl (mem_mem_declarations.mp inside)
  · intro ⟨declared, memories⟩
    exact ⟨declared, fun decl inside => memories (.mem decl) (mem_mem_declarations.mpr inside)⟩

instance (module : RegularModule) : Decidable module.Distinct := decidable_of_iff' _ distinct_iff

end RegularModule

def Module.Distinct : Module → Prop
  | .regular module => module.Distinct
  | .external _ => True

instance : (module : Module) → Decidable module.Distinct
  | .regular module => inferInstanceAs (Decidable module.Distinct)
  | .external _ => isTrue trivial

/-- All names in a module. -/
def Module.names : Module → List String
  | .regular module => module.name :: module.ports.map Port.name ++ module.statements.flatMap Stmt.names
  | .external module => module.name :: module.ports.map Port.name

theorem Module.name_mem_names (module : Module) : module.name ∈ module.names := by
  cases module <;> exact List.mem_cons_self

theorem RegularModule.names_of_declaration {module : RegularModule} {declaration : Declaration}
    (member : declaration ∈ module.declarations) :
    ∀ name ∈ declaration.names, name ∈ (Module.regular module).names := by
  intro name holds
  simp only [Module.names, List.cons_append, List.mem_cons, List.mem_append]
  rcases mem_declarations.mp member with ⟨port, inside, rfl⟩ | ⟨stmt, inside, declares⟩
  · exact Or.inr (Or.inl (List.mem_map.mpr ⟨port, inside, (List.mem_singleton.mp holds).symm⟩))
  · refine Or.inr (Or.inr (List.mem_flatMap.mpr ⟨stmt, inside, ?_⟩))
    simp [Stmt.names, declares, holds]

namespace Circuit

/-- Every name is an identifier, as in every circuit that was read. -/
structure Identified (circuit : Circuit) : Prop where
  main : isIdentifier circuit.main = true
  modules : ∀ module ∈ circuit.modules, ∀ name ∈ module.names, isIdentifier name = true

/-- Names are distinct within each module, whatever the modules are called. -/
def LocallyDistinct (circuit : Circuit) : Prop :=
  ∀ module, .regular module ∈ circuit.modules → module.Distinct

/-- External modules declare nothing, so the condition may be asked of all modules. -/
theorem locallyDistinct_iff {circuit : Circuit} :
    circuit.LocallyDistinct ↔ ∀ module ∈ circuit.modules, module.Distinct := by
  constructor
  · intro each module inside
    cases module with
    | regular module => exact each module inside
    | external module => trivial
  · intro each module inside
    exact each (.regular module) inside

instance (circuit : Circuit) : Decidable circuit.LocallyDistinct := decidable_of_iff' _ locallyDistinct_iff

/-- In each scope the names are distinct. -/
structure Distinct (circuit : Circuit) : Prop where
  modules : (circuit.modules.map Module.name).Nodup
  inside : circuit.LocallyDistinct

theorem distinct_iff {circuit : Circuit} :
    circuit.Distinct ↔ (circuit.modules.map Module.name).Nodup ∧ circuit.LocallyDistinct :=
  ⟨fun ⟨modules, inside⟩ => ⟨modules, inside⟩, fun ⟨modules, inside⟩ => ⟨modules, inside⟩⟩

instance (circuit : Circuit) : Decidable circuit.Distinct := decidable_of_iff' _ distinct_iff

end Circuit

end CircuitNames
