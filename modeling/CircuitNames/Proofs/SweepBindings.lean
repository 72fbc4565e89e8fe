import CircuitNames.Proofs.CircuitSweep

namespace CircuitNames

namespace Declaration

/-- What is bound to the name of a declaration, if something can be selected from it. -/
def binding? (home : ModuleTarget) : Declaration → Option Binding
  | signal _ => none
  | inst name module => some (.inst (home.inst name module))
  | mem decl => some (.memory (home.reference decl.name))

theorem bindings_actions (home : ModuleTarget) (declaration : Declaration) :
    (declaration.actions home).filterMap Action.binding? =
      ((declaration.binding? home).map fun binding =>
        ((home.reference declaration.name).text, binding)).toList := by
  cases declaration with
  | signal name => rfl
  | inst name module => rfl
  | mem decl =>
    have ports : (decl.portNames.map fun port => Action.declare (.inside (home.reference decl.name).text)
        (.reference ((home.reference decl.name).field port))).filterMap Action.binding? = [] := by
      simp [Action.binding?]
    exact congrArg _ ports

end Declaration

theorem mem_module_bindings {main : String} {module : Module} {key : String} {binding : Binding} :
    (key, binding) ∈ (module.actions main).filterMap Action.binding? ↔
      ∃ own, module = .regular own ∧ ∃ declaration ∈ own.declarations,
        declaration.binding? ⟨main, own.name⟩ = some binding ∧
          ((ModuleTarget.mk main own.name).reference declaration.name).text = key := by
  cases module with
  | external module => simp [Module.actions, Action.binding?]
  | regular module =>
    simp only [Module.actions, List.filterMap_cons, Action.binding?, List.filterMap_flatMap, List.mem_flatMap,
      Declaration.bindings_actions, Option.mem_toList, Option.map_eq_some_iff, Prod.mk.injEq,
      Module.regular.injEq, exists_eq_left']
    constructor
    · rintro ⟨declaration, member, found, bound, rfl, rfl⟩
      exact ⟨declaration, member, bound, rfl⟩
    · rintro ⟨declaration, member, bound, rfl⟩
      exact ⟨declaration, member, binding, bound, rfl, rfl⟩

namespace Plan

variable {circuit : Circuit} {order : List Module} (plan : Plan)

/-- A sweep binds what the modules of its order bind, the latest binding first. -/
theorem sweep_bindings (circuit : Circuit) (order : List Module) :
    (plan.sweep circuit order).bindings.entries =
      (order.flatMap fun module => (module.actions circuit.main).filterMap Action.binding?).reverse := by
  rw [sweep, perform_bindings, Circuit.actions, List.filterMap_cons_none rfl, List.filterMap_flatMap]
  exact List.append_nil _

end Plan

end CircuitNames
