import CircuitNames.Ledger.Form

namespace CircuitNames

/-- The targets that a pass leaves as they are. -/
structure SkipSet where
  targets : List Target
deriving DecidableEq, Repr

namespace SkipSet

def empty : SkipSet := ⟨[]⟩

instance : Inhabited SkipSet := ⟨empty⟩

/-- A target is skipped when its text is that of a listed one. -/
def contains (skips : SkipSet) (target : Target) : Bool :=
  skips.targets.any (·.text == target.text)

/-- The number of different targets. -/
def size (skips : SkipSet) : Nat := (skips.targets.map Target.text).eraseDups.length

/-- Only what is declared in a module of the circuit can be skipped, and the signals of a memory port
are not declared anywhere. -/
def check (target : Target) : Except Fault Unit :=
  if !target.isLocal then .error (.skipNotLocal target)
  else match target with
    | .reference reference =>
      if 1 < reference.fields.length then .error (.skipBelowField target) else .ok ()
    | _ => .ok ()

/-- A set of targets that can be skipped. -/
def ofTargets (targets : List Target) : Except Fault SkipSet := do
  targets.forM check
  return ⟨targets⟩

/-- Reads all the texts before it looks at what they address. -/
def parse (texts : List String) : Except Fault SkipSet := do
  ofTargets (← texts.mapM Target.parse)

end SkipSet

end CircuitNames
