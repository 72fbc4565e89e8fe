import CircuitNames.Ledger.Basic
import CircuitNames.Rename.Binding
import CircuitNames.Rename.Rule
import CircuitNames.Rename.Skip

namespace CircuitNames

/-- The scopes a sweep keeps: the circuit name, the module names, and one for every module and every
memory, found by its text. -/
inductive ScopeKey where
  | circuit
  | modules
  | inside (owner : String)
deriving DecidableEq, Repr

/-- What a sweep has done so far. Of two scopes under one key the first one counts. -/
structure Sweep where
  renames : Ledger
  scopes : List (ScopeKey × Scope)
  bindings : Bindings
deriving DecidableEq, Repr

/-- What a sweep is told: the rule, and the targets to leave alone. -/
structure Plan where
  rule : Rule
  skips : SkipSet

namespace Sweep

/-- Before anything is declared, the circuit name and the module names are in scopes of their own, each
with all module names reserved. -/
def start (circuit : Circuit) : Sweep where
  renames := .empty
  scopes := [(.circuit, .ofCircuit circuit), (.modules, .ofCircuit circuit)]
  bindings := .empty

/-- The scope with this key; one that was never opened has no names. -/
def scope (sweep : Sweep) (key : ScopeKey) : Scope := (sweep.scopes.lookup key).getD .empty

/-- Puts a scope in the place of the one with this key. -/
def setScope (sweep : Sweep) (key : ScopeKey) (scope : Scope) : Sweep :=
  { sweep with scopes := (key, scope) :: sweep.scopes }

@[simp] theorem scope_setScope_self (sweep : Sweep) (key : ScopeKey) (scope : Scope) :
    (sweep.setScope key scope).scope key = scope := by
  simp [setScope, Sweep.scope]

theorem scope_setScope_of_ne (sweep : Sweep) {key other : ScopeKey} (scope : Scope)
    (apart : other ≠ key) : (sweep.setScope key scope).scope other = sweep.scope other := by
  simp [setScope, Sweep.scope, List.lookup_cons, beq_false_of_ne apart]

/-- Opens a scope with its first names, unless it is open already. -/
def openScope (sweep : Sweep) (key : ScopeKey) (first : Scope) : Sweep :=
  if (sweep.scopes.lookup key).isSome then sweep else sweep.setScope key first

def bindInstance (sweep : Sweep) (base : ReferenceTarget) (target : InstanceTarget) : Sweep :=
  { sweep with bindings := sweep.bindings.bindInstance base target }

def bindMemory (sweep : Sweep) (base : ReferenceTarget) : Sweep :=
  { sweep with bindings := sweep.bindings.bindMemory base }

/-- The name recorded so far for a target with a single replacement, otherwise the name it is used
under. Names that are no identifiers can give two kinds of target one text, and then the replacement
may be that of the other. -/
def nameOf (sweep : Sweep) (name : String) (target : Target) : Except Fault String :=
  match sweep.renames.resolve? target with
  | none => .ok name
  | some replacement =>
    if replacement.kind = target.kind then .ok replacement.terminalName
    else .error (.renameChangesKind target replacement)

end Sweep

/-- A step of a sweep. -/
abbrev Sweeping := StateT Sweep (Except Fault)

namespace Plan

/-- Runs the rule for a declared name. A new name is reserved in the scope and recorded. -/
def rename (plan : Plan) (key : ScopeKey) (target : Target) (sweep : Sweep) : String × Sweep :=
  let name := target.terminalName
  if plan.skips.contains target then (name, sweep)
  else
    match plan.rule name (sweep.scope key) with
    | (none, scope) => (name, sweep.setScope key scope)
    | (some fresh, scope) =>
      if fresh = name then (name, sweep.setScope key scope)
      else
        (fresh, { sweep.setScope key (scope.reserve fresh) with
          renames := sweep.renames.register target (target.withTerminalName fresh) })

/-- The new name of a declaration, which cannot fail. -/
def declare (plan : Plan) (key : ScopeKey) (target : Target) : Sweeping String := fun sweep =>
  .ok (plan.rename key target sweep)

/-- A declaration of a module that is referred to by its name alone. -/
def declareLocal (plan : Plan) (home : ModuleTarget) (name : String) : Sweeping String :=
  plan.declare (.inside home.text) (.reference (home.reference name))

/-- An instance takes the new name of its module, which is declared before. -/
def declareInstance (plan : Plan) (home : ModuleTarget) (name module : String) : Sweeping Stmt := do
  let callee ← (← get).nameOf module (.module ⟨home.circuit, module⟩)
  let target := home.inst name module
  let fresh ← plan.declare (.inside home.text) (.inst target)
  modify (·.bindInstance (home.reference name) target)
  return .inst fresh callee

/-- The ports of a memory are in a scope of their own. -/
def declareMemory (plan : Plan) (home : ModuleTarget) (decl : MemDecl) : Sweeping Stmt := do
  let target := home.reference decl.name
  let fresh ← plan.declareLocal home decl.name
  let key := ScopeKey.inside target.text
  modify (·.openScope key (.ofMemory decl))
  modify (·.bindMemory target)
  let port (name : String) : Sweeping String := plan.declare key (.reference (target.field name))
  let readers ← decl.readers.mapM port
  let writers ← decl.writers.mapM port
  let readwriters ← decl.readwriters.mapM port
  return .mem { decl with name := fresh, readers, writers, readwriters }

mutual

/-- Renames the declarations of a statement, those nested in it included. -/
def declareStmt (plan : Plan) (home : ModuleTarget) : Stmt → Sweeping Stmt
  | .wire name type => return .wire (← declareLocal plan home name) type
  | .reg name type clock reset => return .reg (← declareLocal plan home name) type clock reset
  | .node name value => return .node (← declareLocal plan home name) value
  | .inst name module => plan.declareInstance home name module
  | .mem decl => plan.declareMemory home decl
  | .when cond body otherwise =>
    return .when cond (← declareStmts plan home body) (← declareStmts plan home otherwise)
  | .block body => return .block (← declareStmts plan home body)
  | stmt => return stmt

/-- Renames what the statements of a list declare, one after the other in one scope. -/
def declareStmts (plan : Plan) (home : ModuleTarget) : List Stmt → Sweeping (List Stmt)
  | [] => return []
  | stmt :: rest => return (← declareStmt plan home stmt) :: (← declareStmts plan home rest)

end

/-- Renames what a module declares. An external module has only its own name to give. -/
def declareModule (plan : Plan) (circuit : String) : Module → Sweeping Module
  | .external module => do
    let name ← plan.declare .modules (.module ⟨circuit, module.name⟩)
    return .external { module with name }
  | .regular module => do
    let home : ModuleTarget := ⟨circuit, module.name⟩
    modify (·.openScope (.inside home.text) (.ofModule module))
    let name ← plan.declare .modules (.module home)
    let ports ← module.ports.mapM fun port =>
      return { port with name := ← plan.declareLocal home port.name }
    let body ← plan.declareStmts home module.body
    return .regular { name, ports, body }

end Plan

end CircuitNames
