import CircuitNames.Proofs.MappedStatements
import CircuitNames.Proofs.ModuleTurns

namespace CircuitNames

/-- Sweeps that agree at a module follow the uses in it to the same, whatever names its declarations got. -/
theorem Sweep.useModule_renamed {sweep other : Sweep} {circuit : Circuit} (identified : circuit.Identified)
    {module : Module} (member : module ∈ circuit.modules)
    (agree : ∀ own, module = .regular own → AgreeAt ⟨circuit.main, own.name⟩ sweep other)
    (names : Target → String) :
    sweep.useModule ⟨circuit.main, module.name⟩ (module.renamed names circuit.main) =
      other.useModule ⟨circuit.main, module.name⟩ (module.renamed names circuit.main) := by
  cases module with
  | external module => rfl
  | regular module =>
    have same : ∀ part ∈ Stmt.walkAll (Stmt.renamedAll names ⟨circuit.main, module.name⟩ module.body),
        ∀ expr ∈ part.ownExprs, sweep.useExpr ⟨circuit.main, module.name⟩ expr =
          other.useExpr ⟨circuit.main, module.name⟩ expr := by
      rw [Stmt.walkAll_renamedAll]
      intro part inside expr held
      obtain ⟨stmt, isStmt, rfl⟩ := List.mem_map.mp inside
      rw [Stmt.ownExprs_renamed] at held
      exact (agree module rfl).useExpr (identified.expr member isStmt held)
    exact congrArg (· >>= _) (Stmt.mapExprsAllM_congr same)

namespace Plan

variable {circuit : Circuit} {order before rest : List Module} (plan : Plan)

/-- What becomes of a module in the end: its declarations get their names, and the uses in it follow. -/
def follow (plan : Plan) (circuit : Circuit) (order : List Module) (module : Module) : Except Fault Module :=
  (plan.sweep circuit order).useModule ⟨circuit.main, module.name⟩
    (module.renamed (plan.naming circuit order) circuit.main)

/-- The turn of a module is given the names of the naming, whichever modules came before it. -/
theorem gives_module {module : Module} (ready : circuit.Ready (before ++ module :: rest)) :
    plan.Gives (plan.naming circuit (before ++ module :: rest)) (module.actions circuit.main)
      (plan.sweep circuit before) := by
  have gives := plan.naming_gives ready
  have splits : circuit.actions (before ++ module :: rest) = circuit.actions before ++
      (module.actions circuit.main ++ rest.flatMap (Module.actions circuit.main)) := by
    simp [Circuit.actions]
  rw [splits] at gives
  exact (gives_append.mp (gives_append.mp gives).2).1

/-- Once all modules had their turns, what became of one is seen in the whole sweep as well. -/
theorem turn_eq_follow (ready : circuit.Ready order) {module : Module} (member : module ∈ order) :
    plan.turn circuit order module = plan.follow circuit order module := by
  obtain ⟨before, rest, rfl⟩ := List.append_of_mem member
  rw [plan.turn_of_gives ready.ordered.nodup (plan.gives_module ready)]
  rw [List.append_cons before module rest] at ready ⊢
  have here : module ∈ before ++ [module] := List.mem_append_right _ List.mem_cons_self
  refine Sweep.useModule_renamed ready.identified (ready.left.ordered.members _ here) (fun own same => ?_) _
  subst same
  exact plan.agreeAt_settled ready here

variable (ready : circuit.Ready order) (all : order.Perm circuit.modules)
include ready all

/-- A renamed circuit has the modules of the circuit in their places, each with its names and uses
followed. -/
theorem renameCircuit_eq_ok {orderOf : Circuit → Except Fault (List Module)}
    (asked : orderOf circuit = .ok order) {out : Circuit} {renames : Ledger} :
    plan.renameCircuit orderOf circuit = .ok (out, renames) ↔
      out.main = plan.naming circuit order (.circuit circuit.main) ∧
      renames = (plan.sweep circuit order).renames ∧
      List.Forall₂ (fun module result => plan.follow circuit order module = .ok result)
        circuit.modules out.modules := by
  have main : (plan.rename .circuit (.circuit circuit.main) (.start circuit)).1 =
      plan.naming circuit order (.circuit circuit.main) := (plan.naming_gives ready).1
  have turns : ∀ results, List.Forall₂ (fun module result => plan.turn circuit order module = .ok result)
      circuit.modules results ↔
      List.Forall₂ (fun module result => plan.follow circuit order module = .ok result)
        circuit.modules results := by
    intro results
    rw [← mapM_eq_ok, ← mapM_eq_ok, mapM_congr fun module member =>
      plan.turn_eq_follow ready (all.mem_iff.mpr member)]
  rw [plan.renameCircuit_eq_ok_turns asked ready.ordered.nodup all, main, turns]

/-- A circuit that has been put in order is renamed just when each of its modules can be followed. -/
theorem renameCircuit_total_iff {orderOf : Circuit → Except Fault (List Module)}
    (asked : orderOf circuit = .ok order) :
    (∃ result, plan.renameCircuit orderOf circuit = .ok result) ↔
      ∀ module ∈ circuit.modules, ∃ result, plan.follow circuit order module = .ok result := by
  rw [plan.renameCircuit_total_iff_turns asked ready.ordered.nodup all]
  refine forall₂_congr fun module member => ?_
  rw [plan.turn_eq_follow ready (all.mem_iff.mpr member)]

end Plan

theorem Plan.renameCircuit_order {plan : Plan} {circuit : Circuit}
    {orderOf : Circuit → Except Fault (List Module)} {result : Circuit × Ledger}
    (run : plan.renameCircuit orderOf circuit = .ok result) :
    ∃ order, orderOf circuit = .ok order := by
  rw [renameCircuit] at run
  obtain ⟨order, asked, _⟩ := bind_eq_ok.mp run
  exact ⟨order, asked⟩

theorem Ledger.compose_empty (renames : Ledger) : Ledger.empty.compose renames = .ok renames := by
  simp [compose, empty, contains, find?]
  rfl

/-- What a successful run that does not skip the circuit comes to. -/
theorem Pass.run_eq_ok {pass : Pass} {circuit out : Circuit} {ledger result : Ledger} {skips : SkipSet}
    (unskipped : Pass.leavesAlone skips circuit = false) :
    pass.run circuit ledger skips = .ok (out, result) ↔
      ∃ renames, Plan.renameCircuit ⟨pass.rule, skips⟩ pass.order circuit = .ok (out, renames) ∧
        ledger.compose renames = .ok result := by
  rw [run, if_neg (by simp [unskipped]), bind_eq_ok]
  constructor
  · rintro ⟨⟨renamed, renames⟩, changed, run⟩
    obtain ⟨composed, kept, same⟩ := bind_eq_ok.mp run
    obtain ⟨rfl, rfl⟩ := Prod.mk.inj (Except.ok.inj same)
    exact ⟨renames, changed, kept⟩
  · rintro ⟨renames, changed, kept⟩
    exact ⟨(out, renames), changed, bind_eq_ok.mpr ⟨result, kept, rfl⟩⟩

theorem Pass.run_leavesAlone {pass : Pass} {circuit : Circuit} {ledger : Ledger} {skips : SkipSet}
    (skipped : Pass.leavesAlone skips circuit = true) :
    pass.run circuit ledger skips = .ok (circuit, ledger) := by
  rw [run, if_pos skipped]

/-- On an empty ledger, a pass that does not skip the circuit is what its plan makes of it. -/
theorem Pass.run_empty {pass : Pass} {circuit : Circuit} {skips : SkipSet}
    (unskipped : Pass.leavesAlone skips circuit = false) :
    pass.run circuit .empty skips = Plan.renameCircuit ⟨pass.rule, skips⟩ pass.order circuit := by
  rw [run, if_neg (by simp [unskipped])]
  simp only [Ledger.compose_empty]
  cases Plan.renameCircuit ⟨pass.rule, skips⟩ pass.order circuit <;> rfl

/-- On an empty ledger, a successful run leaves the circuit as it is or leaves what its plan makes of it. -/
theorem Pass.run_empty_cases {pass : Pass} {circuit out : Circuit} {own : Ledger} {skips : SkipSet}
    (run : pass.run circuit .empty skips = .ok (out, own)) : (out = circuit ∧ own = .empty) ∨
      Plan.renameCircuit ⟨pass.rule, skips⟩ pass.order circuit = .ok (out, own) := by
  cases skipped : Pass.leavesAlone skips circuit with
  | true => exact .inl (Prod.mk.inj (Except.ok.inj (run.symm.trans (run_leavesAlone skipped))))
  | false => exact .inr ((run_empty skipped).symm.trans run)

end CircuitNames
