import CircuitNames.Circuit.Hierarchy
import CircuitNames.Ledger.Track
import CircuitNames.Rename.Uses

namespace CircuitNames

namespace Plan

/-- Renames what a module declares, then the uses in it. -/
def renameModule (plan : Plan) (circuit : String) (module : Module) (sweep : Sweep) :
    Except Fault (Module × Sweep) := do
  let (declared, after) ← (plan.declareModule circuit module).run sweep
  return (← after.useModule ⟨circuit, module.name⟩ declared, after)

/-- Renames modules in order. The results are found by the names the modules had, the latest first. -/
def renameModules (plan : Plan) (circuit : String) :
    List Module → List (String × Module) → Sweep → Except Fault (List (String × Module) × Sweep)
  | [], renamed, sweep => .ok (renamed, sweep)
  | module :: rest, renamed, sweep => do
    let (result, after) ← plan.renameModule circuit module sweep
    plan.renameModules circuit rest ((module.name, result) :: renamed) after

/-- The renamed circuit, with the modules in the places they had, and the renames. The circuit name
goes first, then the modules follow the order. -/
def renameCircuit (plan : Plan) (order : Circuit → Except Fault (List Module)) (circuit : Circuit) :
    Except Fault (Circuit × Ledger) := do
  let (main, started) := plan.rename .circuit (.circuit circuit.main) (.start circuit)
  let (renamed, finished) ← plan.renameModules circuit.main (← order circuit) [] started
  let modules ← circuit.modules.mapM fun module =>
    match renamed.lookup module.name with
    | some result => .ok result
    | none => .error (.leftOutModule circuit.main module.name)
  return (⟨main, modules⟩, finished.renames)

end Plan

/-- A rule under the name it is logged with, and the order in which it takes the modules. -/
structure Pass where
  name : String
  rule : Rule
  order : Circuit → Except Fault (List Module)

namespace Pass

/-- A pass that takes every module after the modules it instantiates. -/
def ofRule (name : String) (rule : Rule) : Pass := ⟨name, rule, Circuit.leafToRoot⟩

/-- The pass that a rule of the configuration stands for. -/
def ofSpec (spec : RuleSpec) : Pass := ofRule spec.passName spec.rule

/-- To skip the circuit is to leave all of it as it is. -/
def leavesAlone (skips : SkipSet) (circuit : Circuit) : Bool :=
  skips.contains (.circuit circuit.main)

/-- Runs the pass and composes its renames into a ledger. -/
def run (pass : Pass) (circuit : Circuit) (ledger : Ledger) (skips : SkipSet) :
    Except Fault (Circuit × Ledger) :=
  if leavesAlone skips circuit then .ok (circuit, ledger)
  else do
    let (renamed, renames) ← Plan.renameCircuit ⟨pass.rule, skips⟩ pass.order circuit
    return (renamed, ← ledger.compose renames)

end Pass

/-- What a step of a pipeline leaves: the circuit, the shared ledger, and the ledger of the step. -/
structure Step where
  circuit : Circuit
  shared : Ledger
  own : Ledger

/-- Runs a pass on a ledger of its own, which then goes into the shared one. -/
def Pass.step (pass : Pass) (circuit : Circuit) (shared : Ledger) (skips : SkipSet) :
    Except Fault Step := do
  let (renamed, own) ← pass.run circuit .empty skips
  return ⟨renamed, ← shared.compose own, own⟩

end CircuitNames
