import CircuitNames.Proofs.References

namespace CircuitNames

namespace RegularModule

/-- A declaration of a module has fields when it is an instance or a memory. -/
def HasFields (module : RegularModule) (root : String) : Prop :=
  (∃ callee, .inst root callee ∈ module.declarations) ∨
    ∃ decl, .mem decl ∈ module.declarations ∧ decl.name = root

/-- The uses that a module can follow: a name, a field of an instance or of a memory, and a field below one of
a memory. -/
def Selects (module : RegularModule) : Expr → Prop
  | .ref _ => True
  | .subfield (.ref root) _ => module.HasFields root
  | .subfield (.subfield (.ref root) _) _ => ∃ decl, .mem decl ∈ module.declarations ∧ decl.name = root
  | _ => False

end RegularModule

/-- No use in a circuit selects from what has no fields. -/
def Circuit.Selectable (circuit : Circuit) : Prop :=
  ∀ module, .regular module ∈ circuit.modules →
    ∀ stmt ∈ module.statements, ∀ use ∈ stmt.uses, module.Selects use

namespace Plan

variable {circuit : Circuit} {order : List Module} (plan : Plan) (ready : circuit.Ready order)

section Followed

variable {module : RegularModule} (member : .regular module ∈ order)
include ready member

/-- A use that is followed without fault is selected by the module. -/
theorem selects_of_useExpr {expr use : Expr} (isUse : use ∈ expr.uses) (names : use.Identified) {use' : Expr}
    (followed : (plan.sweep circuit order).useExpr ⟨circuit.main, module.name⟩ use = .ok use') :
    module.Selects use := by
  rcases Expr.ref_or_subfield isUse with ⟨root, rfl⟩ | ⟨base, field, rfl⟩
  · trivial
  · rcases Sweep.bound_of_useField followed
      with ⟨root, binding, rfl, bound⟩ | ⟨root, port, memory, rfl, bound⟩
    · have rootOk : isIdentifier root = true := names root (by simp [Expr.names])
      obtain ⟨declaration, declared, rfl, binds⟩ := (plan.sweep_find?_eq_some ready member rootOk).mp bound
      cases declaration with
      | signal name => cases binds
      | inst name callee => exact Or.inl ⟨callee, declared⟩
      | mem decl => exact Or.inr ⟨decl, declared, rfl⟩
    · have rootOk : isIdentifier root = true := names root (by simp [Expr.names])
      obtain ⟨decl, declared, named, -⟩ := (plan.sweep_find?_memory ready member rootOk).mp bound
      exact ⟨decl, declared, named⟩

/-- Every name is followed, be it declared or not. -/
theorem useName_total {root : String} (rootOk : isIdentifier root = true) :
    ∃ root', (plan.sweep circuit order).useName ⟨circuit.main, module.name⟩ root = .ok root' := by
  cases bound : (plan.sweep circuit order).bindings.find?
    ((ModuleTarget.mk circuit.main module.name).reference root) with
  | none =>
    have homeOk := ready.identified.moduleName (ready.ordered.members _ member)
    have named := plan.nameOf_eq ready (ready.identified.reference homeOk rootOk)
    unfold Sweep.useName
    dsimp only
    rw [bound]
    exact ⟨_, named⟩
  | some binding =>
    obtain ⟨declaration, declared, rfl, -⟩ := (plan.sweep_find?_eq_some ready member rootOk).mp bound
    exact ⟨_, plan.useName_declared ready member declared⟩

/-- A use that a module can follow is followed to one that the renamed module can follow. -/
theorem useExpr_of_selects {use : Expr} (names : use.Identified) (selects : module.Selects use) :
    ∃ use', (plan.sweep circuit order).useExpr ⟨circuit.main, module.name⟩ use = .ok use' ∧
      ∀ {follow : Expr → Except Fault Expr} {result : RegularModule},
        module.RenamedTo (plan.naming circuit order) ⟨circuit.main, module.name⟩ follow result →
          result.Selects use' := by
  have renamedIn {follow : Expr → Except Fault Expr} {result : RegularModule}
      (renamed : module.RenamedTo (plan.naming circuit order) ⟨circuit.main, module.name⟩ follow result)
      {declaration : Declaration} (declared : declaration ∈ module.declarations) :
      declaration.renamed (plan.naming circuit order) ⟨circuit.main, module.name⟩ ∈ result.declarations :=
    renamed.declarations ▸ List.mem_map_of_mem declared
  unfold RegularModule.Selects at selects
  split at selects
  next root =>
    have rootOk : isIdentifier root = true := names root (by simp [Expr.names])
    obtain ⟨root', named⟩ := plan.useName_total ready member rootOk
    exact ⟨_, bind_eq_ok.mpr ⟨root', named, rfl⟩, fun _ => trivial⟩
  next root field =>
    have fieldOk : isIdentifier field = true := names field (by simp [Expr.names])
    rcases selects with ⟨callee, declared⟩ | ⟨decl, declared, rfl⟩
    · have followed := plan.useField_instancePort ready member declared fieldOk
      exact ⟨_, followed, fun renamed => Or.inl ⟨_, renamedIn renamed declared⟩⟩
    · have followed := plan.useField_memoryPort ready member declared fieldOk
      exact ⟨_, followed, fun renamed => Or.inr ⟨_, renamedIn renamed declared, rfl⟩⟩
  next root port signal =>
    obtain ⟨decl, declared, rfl⟩ := selects
    have portOk : isIdentifier port = true := names port (by simp [Expr.names])
    have followed := plan.useField_memorySignal ready member declared portOk signal
    exact ⟨_, followed, fun renamed => ⟨_, renamedIn renamed declared, rfl⟩⟩
  · exact selects.elim

end Followed

variable (all : order.Perm circuit.modules) {orderOf : Circuit → Except Fault (List Module)}
  (asked : orderOf circuit = .ok order)
include ready all asked

theorem selectable_of_renameCircuit {result : Circuit × Ledger}
    (run : plan.renameCircuit orderOf circuit = .ok result) :
    circuit.Selectable := by
  obtain ⟨-, -, followed⟩ := (plan.renameCircuit_eq_ok ready all asked).mp run
  intro module member stmt isStmt use isUse
  obtain ⟨_, -, gave⟩ := exists_of_mem_left followed member
  obtain ⟨_, -, renamed⟩ := follow_regular gave
  obtain ⟨_, -, -, each⟩ := exists_of_mem_left renamed.uses isStmt
  obtain ⟨use', -, -, usesTo⟩ := exists_of_mem_left each isUse
  obtain ⟨expr, -, inExpr⟩ := List.mem_flatMap.mp isUse
  have names := ready.identified.use member isStmt isUse
  exact plan.selects_of_useExpr ready (all.mem_iff.mpr member) inExpr names usesTo

/-- A circuit that can be put in order is renamed just when each use in it can be followed. -/
theorem renameCircuit_succeeds_iff :
    (∃ result, plan.renameCircuit orderOf circuit = .ok result) ↔ circuit.Selectable := by
  constructor
  · rintro ⟨result, run⟩
    exact plan.selectable_of_renameCircuit ready all asked run
  · intro selectable
    refine (plan.renameCircuit_total_iff ready all asked).mpr fun module inside => ?_
    refine follow_total fun own same stmt isStmt use isUse => ?_
    subst same
    have names := ready.identified.use inside isStmt isUse
    have selects := selectable own inside stmt isStmt use isUse
    obtain ⟨use', usesTo, -⟩ := plan.useExpr_of_selects ready (all.mem_iff.mpr inside) names selects
    exact ⟨use', usesTo⟩

/-- A renamed circuit selects from instances and memories again. -/
theorem renameCircuit_selectable {out : Circuit} {renames : Ledger}
    (run : plan.renameCircuit orderOf circuit = .ok (out, renames)) : out.Selectable := by
  have selectable := plan.selectable_of_renameCircuit ready all asked run
  obtain ⟨-, -, followed⟩ := (plan.renameCircuit_eq_ok ready all asked).mp run
  intro result isResult stmt' isStmt' use' isUse'
  obtain ⟨module, member, gave⟩ := exists_of_mem_right followed isResult
  cases module with
  | external module => cases follow_external gave
  | regular module =>
    obtain ⟨own, same, renamed⟩ := follow_regular gave
    obtain rfl := Module.regular.inj same
    obtain ⟨stmt, -, isStmt, each⟩ := exists_of_mem_right renamed.uses isStmt'
    obtain ⟨use, -, isUse, usesTo⟩ := exists_of_mem_right each isUse'
    have names := ready.identified.use member isStmt isUse
    have selects := selectable module member stmt isStmt use isUse
    obtain ⟨other, usesToOther, kept⟩ := plan.useExpr_of_selects ready (all.mem_iff.mpr member) names selects
    obtain rfl := Except.ok.inj (usesToOther.symm.trans usesTo)
    exact kept renamed

end Plan

end CircuitNames
