import CircuitNames.Proofs.FailingRuns

namespace CircuitNames

/-- Whatever a computation fails with, it is no change of kind. -/
def KeepsKinds {α : Type} (x : Except Fault α) :
    Prop := ∀ fault, x = .error fault → fault.code? ≠ some .kindChange

namespace KeepsKinds

variable {α β : Type}

theorem ok (a : α) : KeepsKinds (.ok a) := fun _ failed => nomatch failed

theorem error {fault : Fault} (fine : fault.code? ≠ some .kindChange) :
    KeepsKinds (.error fault : Except Fault α) :=
  fun _ failed => Except.error.inj failed ▸ fine

theorem bind {x : Except Fault α} {f : α → Except Fault β} (first : KeepsKinds x)
    (later : ∀ a, x = .ok a → KeepsKinds (f a)) : KeepsKinds (x >>= f) := by
  cases x with
  | error fault => exact error (first fault rfl)
  | ok a => exact later a rfl

theorem mapM {f : α → Except Fault β} (each : ∀ item, KeepsKinds (f item)) (items : List α) :
    KeepsKinds (items.mapM f) := by
  induction items with
  | nil => exact ok _
  | cons item rest ih =>
    rw [List.mapM_cons]
    exact (each item).bind fun _ _ => ih.bind fun _ _ => ok _

theorem foldlM {f : β → α → Except Fault β} (each : ∀ state item, KeepsKinds (f state item)) (items : List α)
    (state : β) : KeepsKinds (items.foldlM f state) := by
  induction items generalizing state with
  | nil => exact ok _
  | cons item rest ih =>
    rw [List.foldlM_cons]
    exact (each state item).bind fun next _ => ih next

end KeepsKinds

open KeepsKinds (ok error)

theorem Hierarchy.visit_keepsKinds {circuit : Circuit} {path : List String} {module : Module}
    {member : module ∈ circuit.modules} (order : List Module) :
    KeepsKinds (visit circuit path module member order) := by
  rw [visit]
  split
  · exact ok _
  · split
    · exact error (by simp [Fault.code?])
    · rename_i offPath
      have closer := offPath_length_lt member offPath
      refine .bind (.foldlM (fun order edge => ?_) _ _) fun _ _ => ok _
      split
      · exact error (by simp [Fault.code?])
      · exact visit_keepsKinds order
termination_by (offPath circuit.modules path).length

theorem Circuit.leafToRoot_keepsKinds (circuit : Circuit) : KeepsKinds circuit.leafToRoot := by
  unfold leafToRoot checkDistinct
  refine .bind ?_ fun _ _ => ?_
  · split
    · exact error (by simp [Fault.code?])
    · exact ok _
  · split
    · exact error (by simp [Fault.code?])
    · exact .bind (Hierarchy.visit_keepsKinds _) fun _ _ =>
        .foldlM (fun _ _ => Hierarchy.visit_keepsKinds _) _ _

namespace Sweep

variable {sweep : Sweep} (empty : sweep.renames = .empty) {home : ModuleTarget}
include empty

theorem useField_keepsKinds (base : Expr) (field : String) : KeepsKinds (sweep.useField home base field) := by
  have require (base : ReferenceTarget) : KeepsKinds (sweep.bindings.require base) := by
    unfold Bindings.require
    split
    · exact ok _
    · exact error (by simp [Fault.code?])
  have named (name : String) (target : Target) : KeepsKinds (sweep.nameOf name target) := by
    rw [nameOf_of_empty empty]
    exact ok _
  unfold useField
  split
  · refine .bind (require _) fun binding _ => ?_
    cases binding with
    | inst target => exact .bind (named _ _) fun _ _ => .bind (named _ _) fun _ _ => ok _
    | memory memory => exact .bind (named _ _) fun _ _ => .bind (named _ _) fun _ _ => ok _
  · refine .bind (require _) fun binding _ => ?_
    cases binding with
    | inst target => exact error (by simp [Fault.code?])
    | memory memory => exact .bind (named _ _) fun _ _ => .bind (named _ _) fun _ _ => ok _
  · exact error (by simp [Fault.code?])
  · exact error (by simp [Fault.code?])

omit empty

mutual

/-- With nothing renamed no use fails for a change of kind. As the fault of a pass is the same under every
plan, it can be read off the plan that renames nothing. -/
theorem useExpr_keepsKinds (empty : sweep.renames = .empty) :
    ∀ expr : Expr, KeepsKinds (sweep.useExpr home expr)
  | .ref name => by
    rw [useExpr, useName_of_empty empty]
    exact ok _
  | .subfield base field => useField_keepsKinds empty base field
  | .uintLit .. | .sintLit .. => ok _
  | .prim op args consts => (useExprs_keepsKinds empty args).bind fun _ _ => ok _
  | .mux cond whenTrue whenFalse => (useExpr_keepsKinds empty cond).bind fun _ _ =>
      (useExpr_keepsKinds empty whenTrue).bind fun _ _ =>
        (useExpr_keepsKinds empty whenFalse).bind fun _ _ => ok _
  | .validIf cond value => (useExpr_keepsKinds empty cond).bind fun _ _ =>
      (useExpr_keepsKinds empty value).bind fun _ _ => ok _

theorem useExprs_keepsKinds (empty : sweep.renames = .empty) : ∀ exprs : List Expr,
    KeepsKinds (sweep.useExprs home exprs)
  | [] => ok _
  | expr :: rest =>
    (useExpr_keepsKinds empty expr).bind fun _ _ => (useExprs_keepsKinds empty rest).bind fun _ _ => ok _

end

end Sweep

namespace Stmt

variable {f : Expr → Except Fault Expr} (each : ∀ expr, KeepsKinds (f expr))
include each

theorem mapOwnExprsM_keepsKinds (stmt : Stmt) : KeepsKinds (stmt.mapOwnExprsM f) := by
  cases stmt with
  | wire | inst | mem | block | skip => exact ok _
  | reg name type clock reset =>
    cases reset with
    | none => exact (each _).bind fun _ _ => ok _
    | some reset => exact (each _).bind fun _ _ => (each _).bind fun _ _ => (each _).bind fun _ _ => ok _
  | node | invalidate | when => exact (each _).bind fun _ _ => ok _
  | connect | stop => exact (each _).bind fun _ _ => (each _).bind fun _ _ => ok _
  | print =>
    exact (each _).bind fun _ _ => (each _).bind fun _ _ => (KeepsKinds.mapM each _).bind fun _ _ => ok _

omit each

mutual

theorem mapExprsM_keepsKinds (each : ∀ expr, KeepsKinds (f expr)) :
    ∀ stmt : Stmt, KeepsKinds (stmt.mapExprsM f)
  | when cond body otherwise => (mapExprsAllM_keepsKinds each body).bind fun _ _ =>
      (mapExprsAllM_keepsKinds each otherwise).bind fun _ _ => mapOwnExprsM_keepsKinds each _
  | block body => (mapExprsAllM_keepsKinds each body).bind fun _ _ => ok _
  | wire .. | reg .. | node .. | inst .. | mem .. | connect .. | invalidate .. | stop ..
  | print .. | skip => by
    simp only [mapExprsM]
    exact mapOwnExprsM_keepsKinds each _

theorem mapExprsAllM_keepsKinds (each : ∀ expr, KeepsKinds (f expr)) : ∀ stmts : List Stmt,
    KeepsKinds (mapExprsAllM f stmts)
  | [] => ok _
  | stmt :: rest => (mapExprsM_keepsKinds each stmt).bind fun _ _ =>
      (mapExprsAllM_keepsKinds each rest).bind fun _ _ => ok _

end

end Stmt

namespace Plan

theorem still_renameModule_keepsKinds {circuit : Circuit} {before rest : List Module} {module : Module}
    (ready : circuit.Ready (before ++ module :: rest)) :
    KeepsKinds (still.renameModule circuit.main module (still.sweep circuit before)) := by
  have declared := declareModule_run (still.gives_module ready)
  rw [sweep_snoc] at declared
  have empty := still_sweep_renames circuit (before ++ [module])
  have follows : KeepsKinds ((still.sweep circuit (before ++ [module])).useModule ⟨circuit.main, module.name⟩
      (module.renamed (still.naming circuit (before ++ module :: rest)) circuit.main)) := by
    cases module with
    | external module => exact ok _
    | regular module =>
      exact .bind (Stmt.mapExprsAllM_keepsKinds (Sweep.useExpr_keepsKinds empty) _) fun _ _ => ok _
  rw [renameModule, StateT.run, declared]
  exact follows.bind fun _ _ => ok _

theorem still_renameModules_keepsKinds {circuit : Circuit} {before rest : List Module}
    (ready : circuit.Ready (before ++ rest)) (renamed : List (String × Module)) :
    KeepsKinds (still.renameModules circuit.main rest renamed (still.sweep circuit before)) := by
  induction rest generalizing before renamed with
  | nil => exact ok _
  | cons module rest ih =>
    refine .bind (still_renameModule_keepsKinds ready) ?_
    rintro ⟨result, after⟩ turned
    obtain rfl := (still.renameModule_after turned).trans still.sweep_snoc
    rw [List.append_cons] at ready
    exact ih ready _

end Plan

/-- No pass fails because a rename changes the kind of a target. -/
theorem Plan.renameCircuit_keepsKinds (plan : Plan) {circuit : Circuit} (identified : circuit.Identified)
    (distinct : circuit.LocallyDistinct) : KeepsKinds (plan.renameCircuit Circuit.leafToRoot circuit) := by
  have quiet : KeepsKinds (still.renameCircuit Circuit.leafToRoot circuit) := by
    refine .bind (Circuit.leafToRoot_keepsKinds circuit) fun order ordered => ?_
    have ready := identified.ready distinct ordered
    refine .bind (@still_renameModules_keepsKinds circuit [] order ready []) fun _ _ => ?_
    refine .bind (.mapM (fun module => ?_) _) fun _ _ => ok _
    split
    · exact ok _
    · exact error (by simp [Fault.code?])
  intro fault failed
  have along := renameCircuit_alongside plan still identified
  rw [failed] at along
  cases same : still.renameCircuit Circuit.leafToRoot circuit with
  | ok result =>
    rw [same] at along
    cases along
  | error other =>
    rw [same] at along
    cases along
    exact quiet fault same

end CircuitNames
