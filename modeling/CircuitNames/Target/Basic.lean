namespace CircuitNames

/-- One hop of an instance path: the name of the instance and the module it instantiates. -/
structure Hop where
  inst : String
  ofModule : String
deriving DecidableEq, Repr

/-- A module, by its own name and the name of its circuit. -/
structure ModuleTarget where
  circuit : String
  module : String
deriving DecidableEq, Repr

/-- An instance, declared in the module that the path leads to. -/
structure InstanceTarget where
  circuit : String
  module : String
  path : List Hop
  inst : String
  ofModule : String
deriving DecidableEq, Repr

/-- A port or a declaration, in the module that the path leads to. One field selects an instance port
seen from the parent, or a port of a memory; deeper fields are the signals of a memory port. -/
structure ReferenceTarget where
  circuit : String
  module : String
  path : List Hop
  ref : String
  fields : List String
deriving DecidableEq, Repr

/-- The address of something in a circuit that carries a name of its own. -/
inductive Target where
  | circuit (name : String)
  | module (target : ModuleTarget)
  | inst (target : InstanceTarget)
  | reference (target : ReferenceTarget)
deriving DecidableEq, Repr

namespace ModuleTarget

/-- Something declared in the module itself. -/
def reference (home : ModuleTarget) (name : String) : ReferenceTarget :=
  ⟨home.circuit, home.module, [], name, []⟩

/-- An instance in a module. -/
def inst (home : ModuleTarget) (name ofModule : String) : InstanceTarget :=
  ⟨home.circuit, home.module, [], name, ofModule⟩

end ModuleTarget

/-- The module an instance instantiates, addressed from the circuit. -/
def InstanceTarget.callee (target : InstanceTarget) : ModuleTarget :=
  ⟨target.circuit, target.ofModule⟩

/-- A field of what a reference denotes. -/
def ReferenceTarget.field (target : ReferenceTarget) (name : String) : ReferenceTarget :=
  { target with fields := target.fields ++ [name] }

namespace Target

/-- What a target addresses, whatever its names. -/
inductive Kind where
  | circuit
  | module
  | inst
  | reference
deriving DecidableEq, Repr

def kind : Target → Kind
  | .circuit _ => .circuit
  | .module _ => .module
  | .inst _ => .inst
  | .reference _ => .reference

/-- A local target names something declared directly in its module: no path leads to it. -/
def isLocal : Target → Bool
  | .circuit _ | .module _ => true
  | .inst target => target.path.isEmpty
  | .reference target => target.path.isEmpty

/-- The name that the last component of a target carries. -/
def terminalName : Target → String
  | .circuit name => name
  | .module target => target.module
  | .inst target => target.inst
  | .reference target => target.fields.getLast?.getD target.ref

/-- The target with another name in its last component. -/
def withTerminalName (name : String) : Target → Target
  | .circuit _ => .circuit name
  | .module target => .module { target with module := name }
  | .inst target => .inst { target with inst := name }
  | .reference target =>
    if target.fields.isEmpty then .reference { target with ref := name }
    else .reference { target with fields := target.fields.dropLast ++ [name] }

@[simp] theorem kind_withTerminalName (name : String) (target : Target) :
    (target.withTerminalName name).kind = target.kind := by
  cases target with
  | reference target => simp only [withTerminalName]; split <;> rfl
  | _ => rfl

@[simp] theorem isLocal_withTerminalName (name : String) (target : Target) :
    (target.withTerminalName name).isLocal = target.isLocal := by
  cases target with
  | reference target => simp only [withTerminalName]; split <;> rfl
  | _ => rfl

/-- A target has the terminal name that it was given. -/
@[simp] theorem terminalName_withTerminalName (name : String) (target : Target) :
    (target.withTerminalName name).terminalName = name := by
  cases target with
  | reference target =>
    simp only [withTerminalName]
    split
    next h => simp [terminalName, List.isEmpty_iff.1 h]
    next => simp [terminalName]
  | _ => rfl

end Target

end CircuitNames
