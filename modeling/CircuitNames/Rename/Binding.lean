import CircuitNames.Fault

namespace CircuitNames

/-- An instance denotes its target; a memory denotes its own reference. -/
inductive Binding where
  | inst (target : InstanceTarget)
  | memory (target : ReferenceTarget)
deriving DecidableEq, Repr

/-- Bindings by the text of the reference to the name as it was declared, the latest first. -/
structure Bindings where
  entries : List (String × Binding)
deriving DecidableEq, Repr

namespace Bindings

def empty : Bindings := ⟨[]⟩

/-- The name of an instance denotes the instance from now on. -/
def bindInstance (bindings : Bindings) (base : ReferenceTarget) (target : InstanceTarget) : Bindings :=
  ⟨(base.text, .inst target) :: bindings.entries⟩

/-- The name of a memory denotes the memory from now on. -/
def bindMemory (bindings : Bindings) (base : ReferenceTarget) : Bindings :=
  ⟨(base.text, .memory base) :: bindings.entries⟩

/-- The latest binding of a name counts. -/
def find? (bindings : Bindings) (base : ReferenceTarget) : Option Binding :=
  bindings.entries.lookup base.text

/-- The binding of a name that a field is selected from. -/
def require (bindings : Bindings) (base : ReferenceTarget) : Except Fault Binding :=
  match bindings.find? base with
  | some binding => .ok binding
  | none => .error (.unboundBase base)

end Bindings

end CircuitNames
