import CircuitNames.Proofs.Entities
import CircuitNames.Proofs.Relabels

namespace CircuitNames

namespace Sweep

variable {sweep : Sweep} {home : ModuleTarget}

theorem nameOf_of_empty (empty : sweep.renames = .empty) (name : String) (target : Target) :
    sweep.nameOf name target = .ok name := by
  rw [nameOf, empty]
  rfl

theorem useName_of_empty (empty : sweep.renames = .empty) (name : String) :
    sweep.useName home name = .ok name := by
  unfold useName
  dsimp only
  split <;> exact nameOf_of_empty empty name _

theorem useField_of_empty (empty : sweep.renames = .empty) {base result : Expr} {field : String}
    (run : sweep.useField home base field = .ok result) : result = .subfield base field := by
  rcases bound_of_useField run with ⟨root, binding, rfl, bound⟩ | ⟨root, port, memory, rfl, bound⟩
  · cases binding with
    | inst target =>
      rw [useField_inst bound, nameOf_of_empty empty, nameOf_of_empty empty] at run
      exact (Except.ok.inj run).symm
    | memory memory =>
      rw [useField_memory bound, nameOf_of_empty empty, nameOf_of_empty empty] at run
      exact (Except.ok.inj run).symm
  · rw [useField_signal bound, nameOf_of_empty empty, nameOf_of_empty empty] at run
    exact (Except.ok.inj run).symm

/-- A ledger without entries gives every target the name it has, so an expression that is followed at all
stays the same. -/
theorem useExpr_of_empty (empty : sweep.renames = .empty) {expr result : Expr}
    (run : sweep.useExpr home expr = .ok result) : result = expr := by
  have same : result.mapUses id = expr.mapUses id := useExpr_mapUses
    (fun named => by rw [useName_of_empty empty] at named; rw [Except.ok.inj named])
    (fun followed => useField_of_empty empty followed) run
  rwa [Expr.mapUses_id, Expr.mapUses_id] at same

theorem useModule_of_empty (empty : sweep.renames = .empty) {module result : Module}
    (run : sweep.useModule home module = .ok result) : result = module := by
  have same : result.relabel id id id = module.relabel id id id :=
    useModule_relabel (useExpr_of_empty empty) run
  rwa [Module.relabel_id, Module.relabel_id] at same

end Sweep

section TerminalNames
variable (home : ModuleTarget)

theorem MemDecl.renamed_terminalName (decl : MemDecl) : decl.renamed Target.terminalName home = decl := by
  simp [MemDecl.renamed, Target.terminalName, ReferenceTarget.field, ModuleTarget.reference]

mutual

theorem Stmt.renamed_terminalName : ∀ stmt : Stmt, stmt.renamed Target.terminalName home = stmt
  | .when cond body otherwise => by
    rw [Stmt.renamed, Stmt.renamedAll_terminalName body, Stmt.renamedAll_terminalName otherwise]
  | .block body => by rw [Stmt.renamed, Stmt.renamedAll_terminalName body]
  | .mem decl => by rw [Stmt.renamed, MemDecl.renamed_terminalName]
  | .wire .. | .reg .. | .node .. | .inst .. | .connect .. | .invalidate .. | .stop ..
  | .print .. | .skip => rfl

theorem Stmt.renamedAll_terminalName :
    ∀ stmts : List Stmt, Stmt.renamedAll Target.terminalName home stmts = stmts
  | [] => rfl
  | stmt :: rest => by rw [Stmt.renamedAll, Stmt.renamed_terminalName stmt, Stmt.renamedAll_terminalName rest]

end

end TerminalNames

/-- Under the names that targets have, a module is as it is. -/
theorem Module.renamed_terminalName (main : String) (module : Module) :
    module.renamed Target.terminalName main = module := by
  cases module with
  | external module => rfl
  | regular module =>
    let home : ModuleTarget := ⟨main, module.name⟩
    have ports : (module.ports.map fun port =>
        { port with name := Target.terminalName (.reference (home.reference port.name)) }) = module.ports :=
      List.map_id'' (fun _ => rfl) _
    rw [Module.renamed, ports, Stmt.renamedAll_terminalName]
    rfl

namespace Plan

/-- A plan that leaves a target its name, whatever scope it is in. -/
def Keeps (plan : Plan) (target : Target) : Prop := ∀ scope, (plan.pick target scope).1 = target.terminalName

theorem keeps_of_skipped {plan : Plan} {target : Target} (skipped : plan.skips.contains target = true) :
    plan.Keeps target := by
  intro scope
  rw [pick, if_pos skipped]

/-- A rule that picks nothing else for a name leaves it. -/
theorem keeps_of_rule {plan : Plan} {target : Target}
    (picks : ∀ scope fresh, (plan.rule target.terminalName scope).1 = some fresh →
      fresh = target.terminalName) :
    plan.Keeps target := by
  intro scope
  rcases plan.pick_cases target scope with ⟨-, picked⟩ | ⟨-, picked, -⟩ | ⟨-, fresh, asked, other, -⟩
  · rw [picked]
  · rw [picked]
  · exact absurd (picks scope fresh asked) other

variable {plan : Plan} {actions : List Action} {sweep : Sweep}

theorem act_kept {action : Action} (keeps : ∀ target, action.target? = some target → plan.Keeps target) :
    (plan.act sweep action).renames = sweep.renames := by
  cases action with
  | declare key target =>
    have kept := keeps target rfl (sweep.scope key)
    change (plan.rename key target sweep).2.renames = _
    rw [rename_renames, rename_name, if_pos kept]
  | openScope key first => exact openScope_renames key first
  | consult callee => rfl
  | bindInstance base bound => rfl
  | bindMemory base => rfl

theorem perform_kept (keeps : ∀ target ∈ declared actions, plan.Keeps target) :
    (plan.perform actions sweep).renames = sweep.renames := by
  induction actions generalizing sweep with
  | nil => rfl
  | cons action rest ih =>
    simp only [mem_declared_cons, or_imp, forall_and] at keeps
    rw [perform_cons, ih keeps.2, act_kept keeps.1]

/-- From an empty ledger on, everything keeps the name it has. -/
theorem gives_kept (keeps : ∀ target ∈ declared actions, plan.Keeps target) (empty : sweep.renames = .empty) :
    plan.Gives Target.terminalName actions sweep := by
  induction actions generalizing sweep with
  | nil => trivial
  | cons action rest ih =>
    simp only [mem_declared_cons, or_imp, forall_and] at keeps
    refine ⟨?_, ih keeps.2 ((act_kept keeps.1).trans empty)⟩
    cases action with
    | declare key target => exact (rename_name key sweep).trans (keeps.1 target rfl _)
    | consult callee => exact Sweep.nameOf_of_empty empty _ _
    | openScope key first => trivial
    | bindInstance base bound => trivial
    | bindMemory base => trivial

variable {circuit : Circuit} {order before rest : List Module} {module : Module}

/-- A sweep that keeps every name records nothing. -/
theorem sweep_kept (keeps : ∀ target ∈ declared (circuit.actions order), plan.Keeps target)
    {modules : List Module} (within : modules ⊆ order) : (plan.sweep circuit modules).renames = .empty := by
  refine @perform_kept _ _ (.start circuit) fun target inside => keeps target ?_
  rw [Circuit.declared_actions, List.mem_cons, List.mem_flatMap] at inside ⊢
  refine inside.imp_right ?_
  rintro ⟨module, member, declares⟩
  exact ⟨module, within member, declares⟩

/-- What is left to fail in a module whose names are kept is a use. -/
theorem turn_kept (distinct : ((before ++ module :: rest).map Module.name).Nodup)
    (keeps : ∀ target ∈ declared (circuit.actions (before ++ module :: rest)), plan.Keeps target) :
    plan.turn circuit (before ++ module :: rest) module =
      (plan.sweep circuit (before ++ [module])).useModule ⟨circuit.main, module.name⟩ module := by
  have earlier : (plan.sweep circuit before).renames = .empty := sweep_kept keeps (by simp)
  have own : ∀ target ∈ declared (module.actions circuit.main), plan.Keeps target := by
    intro target inside
    rw [Module.declared_actions] at inside
    refine keeps target ?_
    rw [Circuit.declared_actions]
    exact List.mem_cons_of_mem _ (List.mem_flatMap.mpr ⟨module, by simp, inside⟩)
  rw [plan.turn_of_gives distinct (gives_kept own earlier), Module.renamed_terminalName]

/-- A plan that keeps every name leaves the circuit as it is, if it can follow the uses in it. -/
theorem renameCircuit_kept {orderOf : Circuit → Except Fault (List Module)}
    (asked : orderOf circuit = .ok order) (distinct : (order.map Module.name).Nodup)
    (all : order.Perm circuit.modules) (keeps : ∀ target ∈ declared (circuit.actions order),
      plan.Keeps target) {out : Circuit} {renames : Ledger}
    (run : plan.renameCircuit orderOf circuit = .ok (out, renames)) : out = circuit ∧ renames = .empty := by
  obtain ⟨main, rfl, turned⟩ := (plan.renameCircuit_eq_ok_turns asked distinct all).mp run
  refine ⟨?_, sweep_kept keeps (List.Subset.refl _)⟩
  have sameMain : out.main = circuit.main := by
    rw [main, rename_name]
    exact keeps (.circuit circuit.main) List.mem_cons_self _
  have sameModules : out.modules = circuit.modules := by
    refine Eq.symm (List.forall₂_eq_eq_eq ▸ forall₂_imp_of_mem turned fun module inCircuit result gave => ?_)
    obtain ⟨before, rest, rfl⟩ := List.append_of_mem (all.mem_iff.mpr inCircuit)
    rw [turn_kept distinct keeps] at gave
    exact (Sweep.useModule_of_empty (sweep_kept keeps (by simp)) gave).symm
  cases out
  exact congr (congrArg Circuit.mk sameMain) sameModules

end Plan

/-- A pass whose rule picks no other name, except where it is skipped, leaves the circuit as it is. -/
theorem Pass.run_kept {name : String} {rule : Rule} {circuit out : Circuit} {ledger result : Ledger}
    {skips : SkipSet} (settled : ∀ entity ∈ circuit.entities, skips.contains entity.target = true ∨
      ∀ scope fresh, (rule entity.target.terminalName scope).1 = some fresh →
    fresh = entity.target.terminalName)
    (run : (Pass.ofRule name rule).run circuit ledger skips = .ok (out, result)) :
    out = circuit ∧ (ledger = .empty → result = .empty) := by
  cases skipped : Pass.leavesAlone skips circuit with
  | true =>
    obtain ⟨rfl, rfl⟩ := Prod.mk.inj (Except.ok.inj (run.symm.trans (run_leavesAlone skipped)))
    exact ⟨rfl, id⟩
  | false =>
    obtain ⟨renames, changed, composed⟩ := (run_eq_ok skipped).mp run
    obtain ⟨order, asked⟩ := Plan.renameCircuit_order changed
    have all := Circuit.leafToRoot_perm asked
    have keeps : ∀ target ∈ declared (circuit.actions order), Plan.Keeps ⟨rule, skips⟩ target := by
      intro target inside
      obtain ⟨entity, isEntity, rfl⟩ := (Circuit.mem_declared_iff all).mp inside
      rcases settled entity isEntity with skipped | picks
      · exact Plan.keeps_of_skipped skipped
      · exact Plan.keeps_of_rule picks
    obtain ⟨rfl, rfl⟩ :=
      Plan.renameCircuit_kept asked (Circuit.leafToRoot_spec asked).2.2.1.nodup all keeps changed
    refine ⟨rfl, fun empty => ?_⟩
    rw [empty, Ledger.compose_empty] at composed
    exact (Except.ok.inj composed).symm

end CircuitNames
