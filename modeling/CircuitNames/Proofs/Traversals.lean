import CircuitNames.Circuit.Interchange
import CircuitNames.Proofs.Relabels

namespace CircuitNames

section Acting
variable {m : Type → Type} [Monad m] {α : Type} (act : α → m Unit) (f : α → α)

/-- A mapper that does something with each item that it is given. -/
def acting (item : α) : m α := do
  act item
  return f item

theorem mapM_acting [LawfulMonad m] (items : List α) : items.mapM (acting act f) = do
    items.forM act
    return items.map f := by
  induction items with
  | nil => simp
  | cons item rest ih => simp [acting, ih]

/-- A mapper that only maps does nothing else. -/
theorem acting_pure : (fun item => pure (f item)) = acting (m := Id) (fun _ => pure ()) f := by
  funext item
  simp [acting]

end Acting

namespace Expr

/-- The expressions that stand directly in an expression. -/
def children : Expr → List Expr
  | subfield base _ => [base]
  | prim _ args _ => args
  | mux cond whenTrue whenFalse => [cond, whenTrue, whenFalse]
  | validIf cond value => [cond, value]
  | _ => []

variable (f g : Expr → Expr)

theorem mapChildren_prim (op : String) (args : List Expr) (consts : List Number) :
    (prim op args consts).mapChildren f = prim op (args.map f) consts := by
  simp [mapChildren, mapChildrenM]

/-- The children of the result are the children, mapped: each direct part is handed over once. -/
theorem children_mapChildren (expr : Expr) : (expr.mapChildren f).children = expr.children.map f := by
  cases expr with
  | prim op args consts => rw [mapChildren_prim]; rfl
  | _ => rfl

/-- The mapper is called once on each direct part, in their order. -/
theorem mapChildrenM_acting {m : Type → Type} [Monad m] [LawfulMonad m] (act : Expr → m Unit) (expr : Expr) :
    expr.mapChildrenM (acting act f) = do
      expr.children.forM act
      return expr.mapChildren f := by
  cases expr with
  | prim op args consts =>
    rw [mapChildren_prim, mapChildrenM, mapM_acting]
    simp [children]
  | _ => simp [mapChildrenM, mapChildren, children, acting]

theorem mapChildren_id (expr : Expr) : expr.mapChildren id = expr := by
  cases expr with
  | prim op args consts => rw [mapChildren_prim, List.map_id]
  | _ => rfl

theorem mapChildren_mapChildren (expr : Expr) :
    (expr.mapChildren f).mapChildren g = expr.mapChildren (g ∘ f) := by
  cases expr with
  | prim op args consts => rw [mapChildren_prim, mapChildren_prim, mapChildren_prim, List.map_map]
  | _ => rfl

end Expr

namespace Stmt

/-- The statements that stand directly in a statement. -/
def children : Stmt → List Stmt
  | when _ body otherwise => body ++ otherwise
  | block body => body
  | _ => []

section Children
variable (f g : Stmt → Stmt)

theorem mapChildren_when (cond : Expr) (body otherwise : List Stmt) :
    (when cond body otherwise).mapChildren f = when cond (body.map f) (otherwise.map f) := by
  simp [mapChildren, mapChildrenM]

theorem mapChildren_block (body : List Stmt) : (block body).mapChildren f = block (body.map f) := by
  simp [mapChildren, mapChildrenM]

/-- The statements that a statement holds directly are handed over in the same way. -/
theorem children_mapChildren (stmt : Stmt) : (stmt.mapChildren f).children = stmt.children.map f := by
  cases stmt with
  | when cond body otherwise => rw [mapChildren_when, children, children, List.map_append]
  | block body => rw [mapChildren_block, children, children]
  | _ => rfl

/-- The mapper is called once on each statement directly below, in their order. -/
theorem mapChildrenM_acting {m : Type → Type} [Monad m] [LawfulMonad m] (act : Stmt → m Unit) (stmt : Stmt) :
    stmt.mapChildrenM (acting act f) = do
      stmt.children.forM act
      return stmt.mapChildren f := by
  cases stmt with
  | when cond body otherwise =>
    rw [mapChildren_when, mapChildrenM, mapM_acting, mapM_acting]
    simp [children]
  | block body =>
    rw [mapChildren_block, mapChildrenM, mapM_acting]
    simp [children]
  | _ => simp [mapChildrenM, mapChildren, children]

theorem mapChildren_id (stmt : Stmt) : stmt.mapChildren id = stmt := by
  cases stmt with
  | when cond body otherwise => rw [mapChildren_when, List.map_id, List.map_id]
  | block body => rw [mapChildren_block, List.map_id]
  | _ => rfl

theorem mapChildren_mapChildren (stmt : Stmt) :
    (stmt.mapChildren f).mapChildren g = stmt.mapChildren (g ∘ f) := by
  cases stmt with
  | when cond body otherwise => simp only [mapChildren_when, List.map_map]
  | block body => simp only [mapChildren_block, List.map_map]
  | _ => rfl

end Children

section Effects
variable {m : Type → Type} [Monad m] [LawfulMonad m] (act : Expr → m Unit) (f : Expr → Expr)

mutual

/-- Mapping a tree does what is to be done with its expressions in their order, once with each, and then
leaves the tree with its expressions mapped. -/
theorem mapExprsM_acting : ∀ stmt : Stmt, stmt.mapExprsM (acting act f) = do
    stmt.exprs.forM act
    return stmt.relabel id id f
  | when cond body otherwise => by
    simp only [mapExprsM, mapExprsAllM_acting body, mapExprsAllM_acting otherwise, mapOwnExprsM,
      acting, exprs, relabel]
    simp
  | block body => by
    simp only [mapExprsM, mapExprsAllM_acting body, exprs, relabel]
    simp
  | reg name type clock none | reg name type clock (some reset) | wire .. | node .. | inst .. | mem ..
  | connect .. | invalidate .. | stop .. | skip => by
    simp [mapExprsM, mapOwnExprsM, acting, exprs, ownExprs, relabel]
  | print clock en format args => by
    simp [mapExprsM, mapOwnExprsM, mapM_acting]
    simp [acting, exprs, ownExprs, relabel]

/-- Each expression that a statement of the tree holds itself is mapped once, and nothing else in the tree
changes. -/
theorem mapExprsAllM_acting : ∀ stmts : List Stmt, mapExprsAllM (acting act f) stmts = do
    (exprsAll stmts).forM act
    return relabelAll id id f stmts
  | [] => by simp [mapExprsAllM, exprsAll, relabelAll]
  | stmt :: rest => by
    simp only [mapExprsAllM, mapExprsM_acting stmt, mapExprsAllM_acting rest, exprsAll, relabelAll]
    simp

end

/-- What is nested comes before what the statement holds itself. -/
example (cond loc value held : Expr) :
    (when cond [connect loc value] [block [invalidate held]]).exprs = [loc, value, held, cond] := rfl

end Effects

section Pure
variable (f g : Expr → Expr)

/-- To map the expressions of a statement is to relabel it with its names left as they are. -/
theorem mapExprs_eq_relabel (stmt : Stmt) : stmt.mapExprs f = stmt.relabel id id f := by
  rw [mapExprs, acting_pure, mapExprsM_acting]
  rfl

theorem relabelAll_eq_map (stmts : List Stmt) : relabelAll id id f stmts = stmts.map (mapExprs f) := by
  induction stmts with
  | nil => rfl
  | cons stmt rest ih => rw [relabelAll, ih, List.map_cons, mapExprs_eq_relabel]

/-- What is nested in a statement is mapped as trees of its own, and then the statement maps what it holds
itself. -/
theorem mapExprs_eq (stmt : Stmt) : stmt.mapExprs f = (stmt.mapChildren (mapExprs f)).mapOwnExprs f := by
  rw [mapExprs_eq_relabel]
  cases stmt with
  | when cond body otherwise =>
    rw [relabel, relabelAll_eq_map, relabelAll_eq_map, mapChildren_when]
    rfl
  | block body =>
    rw [relabel, relabelAll_eq_map, mapChildren_block]
    rfl
  | reg name type clock reset => cases reset <;> rfl
  | mem decl =>
    simp only [relabel, id, List.map_id]
    rfl
  | print clock en format args =>
    simp [relabel, mapChildren, mapChildrenM, mapOwnExprs, mapOwnExprsM]
  | _ => rfl

theorem mapExprs_id (stmt : Stmt) : stmt.mapExprs id = stmt := by rw [mapExprs_eq_relabel, relabel_id]

mutual

theorem relabel_relabel : ∀ stmt : Stmt, (stmt.relabel id id f).relabel id id g = stmt.relabel id id (g ∘ f)
  | when cond body otherwise => by
    simp only [relabel, relabelAll_relabelAll body, relabelAll_relabelAll otherwise, Function.comp_apply]
  | block body => by simp only [relabel, relabelAll_relabelAll body]
  | reg name type clock none | reg name type clock (some reset) | wire .. | node .. | inst .. | connect ..
  | invalidate .. | stop .. | skip => rfl
  | mem decl => by simp only [relabel, id, List.map_id]
  | print clock en format args => by simp only [relabel, List.map_map, Function.comp_apply]

theorem relabelAll_relabelAll : ∀ stmts : List Stmt,
    relabelAll id id g (relabelAll id id f stmts) = relabelAll id id (g ∘ f) stmts
  | [] => rfl
  | stmt :: rest => by simp only [relabelAll, relabel_relabel stmt, relabelAll_relabelAll rest]

end

theorem mapExprs_mapExprs (stmt : Stmt) : (stmt.mapExprs f).mapExprs g = stmt.mapExprs (g ∘ f) := by
  simp only [mapExprs_eq_relabel, relabel_relabel]

/-- The statements of the tree stay at their places. -/
theorem walk_mapExprs (stmt : Stmt) : (stmt.mapExprs f).walk = stmt.walk.map (mapExprs f) := by
  have same : mapExprs f = relabel id id f := funext (mapExprs_eq_relabel f)
  rw [same, walk_relabel]

theorem walkAll_mapExprs (stmts : List Stmt) :
    walkAll (stmts.map (mapExprs f)) = (walkAll stmts).map (mapExprs f) := by
  induction stmts with
  | nil => rfl
  | cons stmt rest ih => rw [List.map_cons, walkAll, walkAll, walk_mapExprs, ih, List.map_append]

/-- What the statements of a mapped tree hold is what the statements of the tree hold, mapped. -/
theorem ownExprs_mapExprs (stmt : Stmt) :
    (stmt.mapExprs f).walk.flatMap ownExprs = (stmt.walk.flatMap ownExprs).map f := by
  have each (part : Stmt) : (part.mapExprs f).ownExprs = part.ownExprs.map f := by
    rw [mapExprs_eq_relabel, ownExprs_relabel]
  simp only [walk_mapExprs, List.flatMap_map, List.map_flatMap, each]

theorem kindName_mapExprs (stmt : Stmt) : (stmt.mapExprs f).kindName = stmt.kindName := by
  rw [mapExprs_eq_relabel]
  cases stmt <;> rfl

theorem declaration?_mapExprs (stmt : Stmt) : (stmt.mapExprs f).declaration? = stmt.declaration? := by
  rw [mapExprs_eq_relabel]
  cases stmt with
  | mem decl => simp only [relabel, id, List.map_id]
  | _ => rfl

theorem declaredName?_mapExprs (stmt : Stmt) : (stmt.mapExprs f).declaredName? = stmt.declaredName? := by
  rw [declaredName?_eq, declaration?_mapExprs, ← declaredName?_eq]

theorem edge?_mapExprs (stmt : Stmt) : (stmt.mapExprs f).edge? = stmt.edge? := by
  rw [mapExprs_eq_relabel]
  cases stmt <;> rfl

end Pure

mutual

theorem exprs_perm : ∀ stmt : Stmt, stmt.exprs.Perm (stmt.walk.flatMap ownExprs)
  | when cond body otherwise => by
    rw [exprs, walk, List.flatMap_cons, List.flatMap_append]
    exact (((exprsAll_perm body).append (exprsAll_perm otherwise)).append_right _).trans List.perm_append_comm
  | block body => exprsAll_perm body
  | wire .. | reg .. | node .. | inst .. | mem .. | connect .. | invalidate .. | stop ..
  | print .. | skip => by
    simp [exprs, walk]

theorem exprsAll_perm : ∀ stmts : List Stmt, (exprsAll stmts).Perm ((walkAll stmts).flatMap ownExprs)
  | [] => .nil
  | stmt :: rest => by
    rw [exprsAll, walkAll, List.flatMap_append]
    exact (exprs_perm stmt).append (exprsAll_perm rest)

end

end Stmt

/-- A module with the expressions of its statements mapped. -/
def RegularModule.mapExprs (f : Expr → Expr) (module : RegularModule) : RegularModule :=
  { module with body := module.body.map (Stmt.mapExprs f) }

namespace RegularModule
variable (f : Expr → Expr) (module : RegularModule)

theorem declaredNames_mapExprs : (module.mapExprs f).declaredNames = module.declaredNames := by
  simp only [mapExprs, declaredNames, Stmt.walkAll_mapExprs, List.filterMap_map, Function.comp_def,
    Stmt.declaredName?_mapExprs]

theorem instances_mapExprs :
    (Module.regular (module.mapExprs f)).instances = (Module.regular module).instances := by
  simp only [mapExprs, Module.instances, Stmt.walkAll_mapExprs, List.filterMap_map, Function.comp_def,
    Stmt.edge?_mapExprs]

end RegularModule

/-- Mapping the expressions of a tree of statements is mapping those of the trees nested in it and then those
that it holds itself. Mapping by the identity changes nothing, and mapping twice is mapping once by the
composition. Whatever else a call of the mapper does, it is called once on each expression that a statement
visited in the tree holds itself, as that stands in the tree, and on no other; what it gives stands there in
the result. The statements visited are the same, of the same kinds and in the same order, with the same
declared names and the same instances, in a statement as in a module. Identity and composition go for the
direct parts of a statement and of an expression as well, and there too each part is handed over once and
replaced by what it is mapped to. -/
theorem Stmt.mapExprs_reaches_once (stmt : Stmt) (f g : Expr → Expr) :
    stmt.mapExprs f = (stmt.mapChildren (mapExprs f)).mapOwnExprs f ∧
    stmt.mapExprs id = stmt ∧ (stmt.mapExprs f).mapExprs g = stmt.mapExprs (g ∘ f) ∧
    (∃ calls : List Expr, calls.Perm (stmt.walk.flatMap ownExprs) ∧
      calls.length = (stmt.walk.map fun part => part.ownExprs.length).sum ∧
      ∀ (m : Type → Type) [Monad m] [LawfulMonad m] (act : Expr → m Unit),
        (stmt.mapExprsM fun expr => do act expr; return f expr) = do
          calls.forM act
          return stmt.mapExprs f) ∧
    (stmt.mapExprs f).walk.flatMap ownExprs = (stmt.walk.flatMap ownExprs).map f ∧
    ((stmt.mapExprs f).walk.map kindName = stmt.walk.map kindName ∧
      (stmt.mapExprs f).walk.filterMap declaredName? = stmt.walk.filterMap declaredName? ∧
      (stmt.mapExprs f).walk.filterMap edge? = stmt.walk.filterMap edge?) ∧
    (∀ module : RegularModule, (module.mapExprs f).declaredNames = module.declaredNames ∧
      (Module.regular (module.mapExprs f)).instances = (Module.regular module).instances) ∧
    (∀ h k : Stmt → Stmt, stmt.mapChildren id = stmt ∧
      (stmt.mapChildren h).mapChildren k = stmt.mapChildren (k ∘ h) ∧
      (stmt.mapChildren h).children = stmt.children.map h ∧
      ∀ (m : Type → Type) [Monad m] [LawfulMonad m] (act : Stmt → m Unit),
        (stmt.mapChildrenM fun child => do act child; return h child) = do
          stmt.children.forM act
          return stmt.mapChildren h) ∧
    ∀ expr : Expr, expr.mapChildren id = expr ∧
      (expr.mapChildren f).mapChildren g = expr.mapChildren (g ∘ f) ∧
      (expr.mapChildren f).children = expr.children.map f ∧
      ∀ (m : Type → Type) [Monad m] [LawfulMonad m] (act : Expr → m Unit),
        (expr.mapChildrenM fun child => do act child; return f child) = do
          expr.children.forM act
          return expr.mapChildren f := by
  refine ⟨mapExprs_eq f stmt, mapExprs_id stmt, mapExprs_mapExprs f g stmt,
    ⟨stmt.exprs, exprs_perm stmt, ?_, ?_⟩, ownExprs_mapExprs f stmt, ⟨?_, ?_, ?_⟩,
    fun module => ⟨module.declaredNames_mapExprs f, module.instances_mapExprs f⟩,
    fun h k => ?_, fun expr => ?_⟩
  · rw [(exprs_perm stmt).length_eq, List.length_flatMap]
  · intro m _ _ act
    rw [mapExprs_eq_relabel]
    exact mapExprsM_acting act f stmt
  · simp only [walk_mapExprs, List.map_map, Function.comp_def, kindName_mapExprs]
  · simp only [walk_mapExprs, List.filterMap_map, Function.comp_def, declaredName?_mapExprs]
  · simp only [walk_mapExprs, List.filterMap_map, Function.comp_def, edge?_mapExprs]
  · exact ⟨mapChildren_id stmt, mapChildren_mapChildren h k stmt, children_mapChildren h stmt,
      fun m _ _ act => mapChildrenM_acting h act stmt⟩
  · exact ⟨expr.mapChildren_id, expr.mapChildren_mapChildren f g, expr.children_mapChildren f,
      fun m _ _ act => expr.mapChildrenM_acting f act⟩

end CircuitNames
