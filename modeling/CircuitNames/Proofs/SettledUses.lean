import CircuitNames.Proofs.ExpressionUses
import CircuitNames.Proofs.Holders

namespace CircuitNames

theorem Circuit.Ready.left {circuit : Circuit} {before after : List Module}
    (ready : circuit.Ready (before ++ after)) : circuit.Ready before :=
  ⟨ready.identified, ready.distinct, ready.ordered.left rfl⟩

theorem Circuit.Identified.use {circuit : Circuit} (identified : circuit.Identified) {module : RegularModule}
    (member : .regular module ∈ circuit.modules) {stmt : Stmt}
    (inside : stmt ∈ module.statements) {use : Expr} (isUse : use ∈ stmt.uses) : use.Identified := by
  obtain ⟨expr, held, inExpr⟩ := List.mem_flatMap.mp isUse
  exact fun name holds => identified.expr member inside held name (Expr.names_of_mem_uses inExpr name holds)

namespace Plan

variable {circuit : Circuit} {before after : List Module} (plan : Plan)

theorem sweep_append : plan.sweep circuit (before ++ after) =
    plan.perform (after.flatMap (Module.actions circuit.main)) (plan.sweep circuit before) := by
  rw [sweep, sweep, ← perform_append, Circuit.actions, Circuit.actions, List.flatMap_append]
  rfl

variable (ready : circuit.Ready (before ++ after))
include ready

/-- Once a module had its turn, the names in it no longer change. -/
theorem resolve?_settled {target : Target} (names : target.Identified) {module : Module}
    (member : module ∈ before) (here : target.moduleName? = some module.name) :
    (plan.sweep circuit (before ++ after)).renames.resolve? target =
      (plan.sweep circuit before).renames.resolve? target := by
  have apart : ∀ other ∈ declared (after.flatMap (Module.actions circuit.main)),
      target.text ≠ other.text := by
    intro other inside same
    have declaredLater : other ∈ declared (circuit.actions (before ++ after)) := by
      simp only [Circuit.actions, List.flatMap_append, declared, List.filterMap_cons, Action.target?,
        List.filterMap_append] at inside ⊢
      exact List.mem_cons_of_mem _ (List.mem_append_right _ inside)
    have others := Circuit.declared_identified ready.identified ready.ordered other declaredLater
    obtain rfl := Target.eq_of_text_eq names others same
    simp only [declared, List.filterMap_flatMap, List.mem_flatMap] at inside
    obtain ⟨later, isLater, inside⟩ := inside
    change target ∈ declared (later.actions circuit.main) at inside
    rw [Module.declared_actions] at inside
    have there := Module.moduleName?_of_mem inside
    have distinct := ready.ordered.nodup
    rw [List.map_append, List.nodup_append] at distinct
    have same := Option.some.inj (here.symm.trans there)
    exact distinct.2.2 _ (List.mem_map_of_mem member) _ (List.mem_map_of_mem isLater) same
  rw [sweep_append, Ledger.resolve?, Ledger.resolve?, perform_get?_of_ne apart]

omit ready in
/-- Sweeps over two orders agree at a module of both, as soon as they give the same names to what is declared
in the modules of the first. The names of these modules themselves do not matter: no use asks for them. -/
theorem agreeAt {order other : List Module} (ready : circuit.Ready order) (readyOther : circuit.Ready other)
    {module : RegularModule} (member : .regular module ∈ order) (memberOther : .regular module ∈ other)
    (names : ∀ {target : Target}, target.Identified → target.kind ≠ .module →
      (∃ declaring ∈ order, target.moduleName? = some declaring.name) →
      (plan.sweep circuit order).nameOf target.terminalName target =
        (plan.sweep circuit other).nameOf target.terminalName target) :
    Sweep.AgreeAt ⟨circuit.main, module.name⟩ (plan.sweep circuit order) (plan.sweep circuit other) where
  bound rootOk := Option.ext fun binding => by
    rw [plan.sweep_find?_eq_some ready member rootOk, plan.sweep_find?_eq_some readyOther memberOther rootOk]
  own nameOk := by
    have homeOk : isIdentifier module.name = true :=
      ready.identified.moduleName (ready.ordered.members _ member)
    exact names (ready.identified.reference homeOk nameOk) (by simp [Target.kind]) ⟨_, member, rfl⟩
  inst rootOk found := by
    have inCircuit := ready.ordered.members _ member
    have homeOk : isIdentifier module.name = true := ready.identified.moduleName inCircuit
    obtain ⟨callee, declared, rfl⟩ := (plan.sweep_find?_inst ready member rootOk).mp found
    have calleeOk := Circuit.callee_identified ready.identified inCircuit declared
    exact names (ready.identified.inst homeOk rootOk calleeOk) (by simp [Target.kind]) ⟨_, member, rfl⟩
  instancePort {root port target} rootOk found portOk := by
    obtain ⟨callee, declared, rfl⟩ := (plan.sweep_find?_inst ready member rootOk).mp found
    have isInstance : InstanceEdge.mk root callee ∈ (Module.regular module).instances :=
      RegularModule.inst_mem_declarations.mp declared
    obtain ⟨declaring, isDeclaring, rfl⟩ := ready.ordered.callee_mem member isInstance
    have calleeOk := ready.identified.moduleName (ready.ordered.members _ isDeclaring)
    exact names (ready.identified.reference calleeOk portOk) (by simp [Target.kind]) ⟨_, isDeclaring, rfl⟩
  memory rootOk found := by
    obtain ⟨decl, declared, rfl, rfl⟩ := (plan.sweep_find?_memory ready member rootOk).mp found
    rfl
  memoryPort rootOk portOk := by
    have homeOk : isIdentifier module.name = true :=
      ready.identified.moduleName (ready.ordered.members _ member)
    exact names (ready.identified.field homeOk rootOk portOk) (by simp [Target.kind]) ⟨_, member, rfl⟩

/-- Once a module had its turn, the uses in it can be followed at any time later: what is bound to their bases
is declared in the module itself, and a field of an instance in a module before it. -/
theorem agreeAt_settled {module : RegularModule} (member : .regular module ∈ before) :
    Sweep.AgreeAt ⟨circuit.main, module.name⟩ (plan.sweep circuit before)
      (plan.sweep circuit (before ++ after)) := by
  refine plan.agreeAt ready.left ready member (List.mem_append_left _ member) ?_
  rintro target names - ⟨declaring, isDeclaring, here⟩
  rw [Sweep.nameOf, Sweep.nameOf, plan.resolve?_settled ready names isDeclaring here]

end Plan

end CircuitNames
