import CircuitNames.Circuit.Basic
import CircuitNames.Fault

namespace CircuitNames

/-- An instance as an edge of the hierarchy: its name and the module it instantiates. -/
structure InstanceEdge where
  inst : String
  module : String
deriving DecidableEq, Repr

def Stmt.edge? : Stmt → Option InstanceEdge
  | inst name module => some ⟨name, module⟩
  | _ => none

/-- The instances of a module in the order of its statements. What an external module holds is not
known. -/
def Module.instances : Module → List InstanceEdge
  | regular module => (Stmt.walkAll module.body).filterMap Stmt.edge?
  | external _ => []

namespace Hierarchy

/-- The first module of that name. -/
def find? (modules : List Module) (name : String) : Option Module :=
  modules.find? (·.name == name)

/-- The modules that are not on a path. -/
def offPath (modules : List Module) (path : List String) : List Module :=
  modules.filter fun module => !path.contains module.name

/-- A path that grows by a module leaves fewer of them off it. -/
theorem offPath_length_lt {modules : List Module} {path : List String} {module : Module}
    (member : module ∈ modules) (fresh : module.name ∉ path) :
    (offPath modules (path ++ [module.name])).length < (offPath modules path).length := by
  have smaller (rest : List Module) :
      (offPath rest (path ++ [module.name])).length ≤ (offPath rest path).length := by
    induction rest with
    | nil => simp [offPath]
    | cons head tail ih =>
      simp only [offPath, List.filter_cons] at ih ⊢
      by_cases on : head.name ∈ path
      · simp [on] at ih ⊢; omega
      · by_cases same : head.name = module.name
        · simp [same, fresh] at ih ⊢; omega
        · simp [on, same] at ih ⊢; omega
  induction modules with
  | nil => cases member
  | cons head tail ih =>
    rcases List.mem_cons.1 member with rfl | inside
    · have := smaller tail
      simp only [offPath, List.filter_cons] at this ⊢
      simp [fresh] at this ⊢
      omega
    · have := ih inside
      simp only [offPath, List.filter_cons] at this ⊢
      by_cases on : head.name ∈ path
      · simp [on] at this ⊢; omega
      · by_cases same : head.name = module.name
        · simp [same, fresh] at this ⊢; omega
        · simp [on, same] at this ⊢; omega

theorem mem_of_find? {modules : List Module} {name : String} {module : Module}
    (found : find? modules name = some module) : module ∈ modules :=
  List.mem_of_find?_eq_some found

/-- Appends a module to the order after everything below it, unless the order has it already. The
path leads from where the search began to this module. -/
def visit (circuit : Circuit) (path : List String) (module : Module)
    (_ : module ∈ circuit.modules) (order : List Module) : Except Fault (List Module) :=
  if order.any (·.name == module.name) then .ok order
  else if _ : module.name ∈ path then
    .error (.instanceCycle circuit.main (path.dropWhile (· != module.name) ++ [module.name]))
  else do
    let below ← module.instances.foldlM
      (fun order edge =>
        match found : find? circuit.modules edge.module with
        | none => .error (.undeclaredModule edge.inst module.name edge.module)
        | some child => visit circuit (path ++ [module.name]) child (mem_of_find? found) order)
      order
    return below ++ [module]
termination_by (offPath circuit.modules path).length
decreasing_by exact offPath_length_lt ‹_› ‹_›

/-- One step below a module: its instance leads to another module, which is visited. -/
def descend (circuit : Circuit) (path : List String) (holder : Module) (order : List Module)
    (edge : InstanceEdge) :
    Except Fault (List Module) :=
  match found : find? circuit.modules edge.module with
  | none => .error (.undeclaredModule edge.inst holder.name edge.module)
  | some child => visit circuit path child (mem_of_find? found) order

/-- The first name that repeats an earlier one. -/
def firstRepeated (seen : List String) : List String → Option String
  | [] => none
  | name :: rest =>
    if seen.contains name then some name else firstRepeated (name :: seen) rest

end Hierarchy

namespace Circuit

/-- Refuses a circuit in which two modules have one name. -/
def checkDistinct (circuit : Circuit) : Except Fault Unit :=
  match Hierarchy.firstRepeated [] (circuit.modules.map Module.name) with
  | some name => .error (.duplicateModule circuit.main name)
  | none => .ok ()

/-- Every module once, after all the modules it instantiates: first those below the main module, then
the others as they are declared. -/
def leafToRoot (circuit : Circuit) : Except Fault (List Module) := do
  circuit.checkDistinct
  match found : Hierarchy.find? circuit.modules circuit.main with
  | none => .error (.noMainModule circuit.main)
  | some main =>
    let order ← Hierarchy.visit circuit [] main (Hierarchy.mem_of_find? found) []
    circuit.modules.attach.foldlM
      (fun order module => Hierarchy.visit circuit [] module.1 module.2 order) order

end Circuit

end CircuitNames
