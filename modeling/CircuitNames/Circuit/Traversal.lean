import CircuitNames.Circuit.Basic

namespace CircuitNames

variable {m : Type → Type} [Monad m]

namespace Expr

/-- Maps the direct parts of an expression. -/
def mapChildrenM (f : Expr → m Expr) : Expr → m Expr
  | subfield base name => return subfield (← f base) name
  | prim op args consts => return prim op (← args.mapM f) consts
  | mux cond whenTrue whenFalse => return mux (← f cond) (← f whenTrue) (← f whenFalse)
  | validIf cond value => return validIf (← f cond) (← f value)
  | leaf => return leaf

def mapChildren (f : Expr → Expr) (expr : Expr) : Expr :=
  Id.run (expr.mapChildrenM fun e => pure (f e))

end Expr

namespace Stmt

/-- Maps the expressions that a statement holds itself, not those of nested statements. -/
def mapOwnExprsM (f : Expr → m Expr) : Stmt → m Stmt
  | reg name type clock none => return reg name type (← f clock) none
  | reg name type clock (some reset) =>
    return reg name type (← f clock) (some ⟨← f reset.signal, ← f reset.init⟩)
  | node name value => return node name (← f value)
  | connect loc expr => return connect (← f loc) (← f expr)
  | invalidate expr => return invalidate (← f expr)
  | when cond body otherwise => return when (← f cond) body otherwise
  | stop clock en exitCode => return stop (← f clock) (← f en) exitCode
  | print clock en format args => return print (← f clock) (← f en) format (← args.mapM f)
  | stmt => return stmt

def mapOwnExprs (f : Expr → Expr) (stmt : Stmt) : Stmt :=
  Id.run (stmt.mapOwnExprsM fun e => pure (f e))

/-- Maps the statements directly nested in a statement. -/
def mapChildrenM (f : Stmt → m Stmt) : Stmt → m Stmt
  | when cond body otherwise => return when cond (← body.mapM f) (← otherwise.mapM f)
  | block body => return block (← body.mapM f)
  | stmt => return stmt

def mapChildren (f : Stmt → Stmt) (stmt : Stmt) : Stmt :=
  Id.run (stmt.mapChildrenM fun s => pure (f s))

mutual

/-- Maps the expressions of a whole statement tree, those of nested statements first. -/
def mapExprsM (f : Expr → m Expr) : Stmt → m Stmt
  | when cond body otherwise => do
    let body ← mapExprsAllM f body
    let otherwise ← mapExprsAllM f otherwise
    mapOwnExprsM f (when cond body otherwise)
  | block body => return block (← mapExprsAllM f body)
  | stmt => mapOwnExprsM f stmt

/-- Maps the trees of a list, one after the other. The mappers may have effects, which happen in the order in
which the parts are written. -/
def mapExprsAllM (f : Expr → m Expr) : List Stmt → m (List Stmt)
  | [] => return []
  | stmt :: rest => return (← mapExprsM f stmt) :: (← mapExprsAllM f rest)

end

/-- Maps the expressions of a whole statement tree. -/
def mapExprs (f : Expr → Expr) (stmt : Stmt) : Stmt :=
  Id.run (stmt.mapExprsM fun e => pure (f e))

end Stmt

end CircuitNames
