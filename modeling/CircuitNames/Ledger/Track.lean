import CircuitNames.Fault
import CircuitNames.Ledger.Basic

namespace CircuitNames

namespace Ledger

/-- The name that a component ends up with: the terminal name of its single replacement, or its own.
A replacement of another kind cannot name the component. -/
def nameOf (ledger : Ledger) (component : Target) : Except Fault String :=
  match ledger.resolve? component with
  | none => .ok component.terminalName
  | some replacement =>
    if replacement.kind = component.kind then .ok replacement.terminalName
    else .error (.ledgerChangesKind component replacement)

/-- A hop out of `parent`: its instance is declared there, its module in the circuit. -/
def followHop (ledger : Ledger) (circuit parent : String) (hop : Hop) : Except Fault Hop := do
  return ⟨← ledger.nameOf (.inst ⟨circuit, parent, [], hop.inst, hop.ofModule⟩),
    ← ledger.nameOf (.module ⟨circuit, hop.ofModule⟩)⟩

/-- The hops of a path, each out of the module that the one before it leads to. -/
def followPath (ledger : Ledger) (circuit : String) : String → List Hop → Except Fault (List Hop)
  | _, [] => .ok []
  | parent, hop :: rest => do
    let first ← ledger.followHop circuit parent hop
    return first :: (← ledger.followPath circuit hop.ofModule rest)

/-- The module a path ends in. -/
def endOfPath (module : String) (path : List Hop) : String :=
  (path.getLast?.map Hop.ofModule).getD module

/-- Renames the components that enclose the terminal name, and the terminal name too if `terminal` is
set. Of the fields only the first has a name of its own. -/
def follow (ledger : Ledger) (terminal : Bool) : Target → Except Fault Target
  | .circuit name =>
    if terminal then (ledger.nameOf (.circuit name)).map .circuit else .ok (.circuit name)
  | .module target => do
    let circuit ← ledger.nameOf (.circuit target.circuit)
    if terminal then return .module ⟨circuit, ← ledger.nameOf (.module target)⟩
    else return .module ⟨circuit, target.module⟩
  | .inst target => do
    let circuit ← ledger.nameOf (.circuit target.circuit)
    let module ← ledger.nameOf (.module ⟨target.circuit, target.module⟩)
    let path ← ledger.followPath target.circuit target.module target.path
    let last ← ledger.followHop target.circuit (endOfPath target.module target.path)
      ⟨target.inst, target.ofModule⟩
    return .inst ⟨circuit, module, path, if terminal then last.inst else target.inst, last.ofModule⟩
  | .reference target => do
    let circuit ← ledger.nameOf (.circuit target.circuit)
    let module ← ledger.nameOf (.module ⟨target.circuit, target.module⟩)
    let path ← ledger.followPath target.circuit target.module target.path
    let parent : ModuleTarget := ⟨target.circuit, endOfPath target.module target.path⟩
    let base := parent.reference target.ref
    match target.fields with
    | [] =>
      let ref ← if terminal then ledger.nameOf (.reference base) else pure target.ref
      return .reference ⟨circuit, module, path, ref, []⟩
    | first :: inner =>
      let ref ← ledger.nameOf (.reference base)
      let field ← if terminal || !inner.isEmpty then ledger.nameOf (.reference (base.field first))
        else pure first
      return .reference ⟨circuit, module, path, ref, field :: inner⟩

/-- Where a target ended up. -/
def track (ledger : Ledger) (target : Target) : Except Fault Target := ledger.follow true target

/-- The replacements of an entry after the renames of a later ledger. A replacement keeps the
enclosing names of its source, while the later ledger speaks of the names this one produced, so it is
looked up under those; only its terminal name changes. -/
def chase (ledger next : Ledger) (replacement : Target) : Except Fault (List Target) := do
  let lifted ← ledger.follow false replacement
  match next.get? lifted with
  | none => return [replacement]
  | some found => return found.map fun target => replacement.withTerminalName target.terminalName

/-- All replacements of an entry after the renames of a later ledger, each text once. -/
def chaseEntry (ledger next : Ledger) (entry : Entry) : Except Fault Entry := do
  let chased ← entry.replacements.mapM (ledger.chase next)
  return { entry with replacements := chased.flatten.foldl addReplacement [] }

/-- Folds a later ledger into this one: recorded replacements move on, and entries of the later
ledger for other sources are added. -/
def compose (ledger next : Ledger) : Except Fault Ledger := do
  let entries ← ledger.entries.mapM (ledger.chaseEntry next)
  return ⟨entries ++ next.entries.filter fun entry => !ledger.contains entry.source⟩

end Ledger

end CircuitNames
