import CircuitNames.Proofs.Binds
import CircuitNames.Proofs.Declarations
import CircuitNames.Proofs.Picks

namespace CircuitNames

/-- What a sweep does, one thing after the other, whatever the shape of the statements. -/
inductive Action where
  | openScope (key : ScopeKey) (first : Scope)
  | declare (key : ScopeKey) (target : Target)
  | consult (callee : ModuleTarget)
  | bindInstance (base : ReferenceTarget) (target : InstanceTarget)
  | bindMemory (base : ReferenceTarget)

/-- What a sweep does at a declaration. A memory opens the scope of its ports after it is named and before
they are. -/
def Declaration.actions (home : ModuleTarget) : Declaration → List Action
  | signal name => [.declare (.inside home.text) (.reference (home.reference name))]
  | inst name module =>
    [.consult ⟨home.circuit, module⟩, .declare (.inside home.text) (.inst (home.inst name module)),
      .bindInstance (home.reference name) (home.inst name module)]
  | mem decl =>
    let memory := home.reference decl.name
    .declare (.inside home.text) (.reference memory) :: .openScope (.inside memory.text) (.ofMemory decl) ::
      .bindMemory memory ::
      decl.portNames.map fun port => .declare (.inside memory.text) (.reference (memory.field port))

def Stmt.actions (home : ModuleTarget) (stmt : Stmt) : List Action :=
  (stmt.declaration?.map (Declaration.actions home)).getD []

/-- What a sweep does in a module's turn. -/
def Module.actions (circuit : String) : Module → List Action
  | .external module => [.declare .modules (.module ⟨circuit, module.name⟩)]
  | .regular module =>
    let home : ModuleTarget := ⟨circuit, module.name⟩
    .openScope (.inside home.text) (.ofModule module) :: .declare .modules (.module home) ::
      module.declarations.flatMap (Declaration.actions home)

theorem Stmt.flatMap_actions (home : ModuleTarget) (stmts : List Stmt) :
    stmts.flatMap (Stmt.actions home) =
      (stmts.filterMap declaration?).flatMap (Declaration.actions home) := by
  induction stmts with
  | nil => rfl
  | cons stmt rest ih =>
    rw [List.flatMap_cons, List.filterMap_cons, ih, Stmt.actions]
    cases stmt.declaration? <;> rfl

theorem RegularModule.flatMap_actions (home : ModuleTarget) (module : RegularModule) :
    module.declarations.flatMap (Declaration.actions home) =
      (module.ports.map fun port => .declare (.inside home.text) (.reference (home.reference port.name))) ++
        module.statements.flatMap (Stmt.actions home) := by
  rw [Stmt.flatMap_actions, declarations, List.flatMap_append, List.flatMap_map]
  exact congrArg (· ++ _) List.map_eq_flatMap.symm

variable (names : Target → String) (home : ModuleTarget)

/-- The declarations renamed by a function from targets to names: here a memory, with its ports. -/
def MemDecl.renamed (decl : MemDecl) : MemDecl :=
  let memory := home.reference decl.name
  let port (name : String) : String := names (.reference (memory.field name))
  { decl with
    name := names (.reference memory)
    readers := decl.readers.map port
    writers := decl.writers.map port
    readwriters := decl.readwriters.map port }

def Declaration.renamed : Declaration → Declaration
  | signal name => .signal (names (.reference (home.reference name)))
  | inst name module => .inst (names (.inst (home.inst name module))) (names (.module ⟨home.circuit, module⟩))
  | mem decl => .mem (decl.renamed names home)

theorem Declaration.name_renamed (declaration : Declaration) :
    (declaration.renamed names home).name = names (declaration.target home) := by
  cases declaration <;> rfl

theorem MemDecl.portNames_renamed (decl : MemDecl) :
    (decl.renamed names home).portNames =
      decl.portNames.map fun port => names (.reference ((home.reference decl.name).field port)) := by
  simp [renamed, portNames]

namespace Stmt

mutual

/-- A statement with the declarations in it renamed, and its uses left as they are. -/
def renamed : Stmt → Stmt
  | wire name type => wire (names (.reference (home.reference name))) type
  | reg name type clock reset => reg (names (.reference (home.reference name))) type clock reset
  | node name value => node (names (.reference (home.reference name))) value
  | inst name module => inst (names (.inst (home.inst name module))) (names (.module ⟨home.circuit, module⟩))
  | mem decl => mem (decl.renamed names home)
  | when cond body otherwise => when cond (renamedAll body) (renamedAll otherwise)
  | block body => block (renamedAll body)
  | stmt => stmt

def renamedAll : List Stmt → List Stmt
  | [] => []
  | stmt :: rest => renamed stmt :: renamedAll rest

end

theorem declaration?_renamed (stmt : Stmt) :
    (stmt.renamed names home).declaration? = stmt.declaration?.map (Declaration.renamed names home) := by
  cases stmt <;> rfl

/-- The expressions wait until all declarations have their names. -/
theorem ownExprs_renamed (stmt : Stmt) : (stmt.renamed names home).ownExprs = stmt.ownExprs := by
  cases stmt with
  | reg name type clock reset => cases reset <;> rfl
  | _ => rfl

mutual

theorem walk_renamed : ∀ stmt : Stmt, (stmt.renamed names home).walk = stmt.walk.map (renamed names home)
  | when cond body otherwise => by
    simp only [renamed, walk, List.map_cons, List.map_append]
    rw [walkAll_renamedAll body, walkAll_renamedAll otherwise]
  | block body => by
    simp only [renamed, walk, List.map_cons]
    rw [walkAll_renamedAll body]
  | wire .. | reg .. | node .. | inst .. | mem .. | connect .. | invalidate .. | stop ..
  | print .. | skip => by
    simp only [renamed, walk, List.map_cons, List.map_nil]

theorem walkAll_renamedAll : ∀ stmts : List Stmt,
    walkAll (renamedAll names home stmts) = (walkAll stmts).map (renamed names home)
  | [] => rfl
  | stmt :: rest => by
    simp only [renamedAll, walkAll, List.map_append]
    rw [walk_renamed stmt, walkAll_renamedAll rest]

end

end Stmt

/-- The declared names of a module renamed, and the modules of its instances with them. -/
def Module.renamed (circuit : String) : Module → Module
  | .external module => .external { module with name := names (.module ⟨circuit, module.name⟩) }
  | .regular module =>
    let home : ModuleTarget := ⟨circuit, module.name⟩
    .regular {
      name := names (.module home)
      ports := module.ports.map fun port =>
        { port with name := names (.reference (home.reference port.name)) }
      body := Stmt.renamedAll names home module.body }

end CircuitNames
