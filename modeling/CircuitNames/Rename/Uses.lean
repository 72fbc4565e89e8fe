import CircuitNames.Circuit.Traversal
import CircuitNames.Rename.Sweep

namespace CircuitNames

namespace Sweep

/-- A plain reference names an instance where one is bound to the name. -/
def useName (sweep : Sweep) (home : ModuleTarget) (name : String) : Except Fault String :=
  let base := home.reference name
  match sweep.bindings.find? base with
  | some (.inst target) => sweep.nameOf name (.inst target)
  | _ => sweep.nameOf name (.reference base)

/-- The use of a field. Its base is looked at first: what the base is bound to decides where the field
is declared. -/
def useField (sweep : Sweep) (home : ModuleTarget) (base : Expr) (field : String) :
    Except Fault Expr :=
  match base with
  | .ref root => do
    match ← sweep.bindings.require (home.reference root) with
    | .inst target =>
      return .subfield (.ref (← sweep.nameOf root (.inst target)))
        (← sweep.nameOf field (.reference (target.callee.reference field)))
    | .memory memory =>
      return .subfield (.ref (← sweep.nameOf root (.reference memory)))
        (← sweep.nameOf field (.reference (memory.field field)))
  | .subfield (.ref root) port => do
    match ← sweep.bindings.require (home.reference root) with
    | .inst _ => .error (.selectionBelowPort root port field home.module)
    | .memory memory =>
      return .subfield
        (.subfield (.ref (← sweep.nameOf root (.reference memory)))
          (← sweep.nameOf port (.reference (memory.field port))))
        field
  | .subfield _ port => .error (.selectionTooDeep port field home.module)
  | _ => .error (.selectionFromOther field home.module)

mutual

/-- The expression with every use in it following its declaration. -/
def useExpr (sweep : Sweep) (home : ModuleTarget) : Expr → Except Fault Expr
  | .ref name => return .ref (← sweep.useName home name)
  | .subfield base field => sweep.useField home base field
  | .prim op args consts => return .prim op (← useExprs sweep home args) consts
  | .mux cond whenTrue whenFalse =>
    return .mux (← useExpr sweep home cond) (← useExpr sweep home whenTrue)
      (← useExpr sweep home whenFalse)
  | .validIf cond value =>
    return .validIf (← useExpr sweep home cond) (← useExpr sweep home value)
  | literal => .ok literal

/-- Follows the uses in each of some expressions. -/
def useExprs (sweep : Sweep) (home : ModuleTarget) : List Expr → Except Fault (List Expr)
  | [] => .ok []
  | expr :: rest => return (← useExpr sweep home expr) :: (← useExprs sweep home rest)

end

/-- Renames the uses in a module whose declarations are renamed; `home` is its target before. -/
def useModule (sweep : Sweep) (home : ModuleTarget) : Module → Except Fault Module
  | .external module => .ok (.external module)
  | .regular module =>
    return .regular { module with body := ← Stmt.mapExprsAllM (sweep.useExpr home) module.body }

end Sweep

end CircuitNames
