import CircuitNames.Proofs.AgreeingSweeps
import CircuitNames.Proofs.KeptNames
import CircuitNames.Proofs.Selections

namespace CircuitNames

/-- A computation fails just when it has no result. -/
theorem fails_iff {ε α : Type} {x : Except ε α} :
    (∃ fault, x = .error fault) ↔ ¬∃ result, x = .ok result := by
  cases x <;> simp

namespace Expr

mutual

/-- An expression and all expressions in it. -/
def parts : Expr → List Expr
  | subfield base name => subfield base name :: parts base
  | prim op args consts => prim op args consts :: partsAll args
  | mux cond whenTrue whenFalse =>
    mux cond whenTrue whenFalse :: (parts cond ++ parts whenTrue ++ parts whenFalse)
  | validIf cond value => validIf cond value :: (parts cond ++ parts value)
  | leaf => [leaf]

def partsAll : List Expr → List Expr
  | [] => []
  | expr :: rest => parts expr ++ partsAll rest

end

variable {use base : Expr} {field : String}

mutual

theorem mem_parts_of_mem_uses : ∀ {expr : Expr}, use ∈ expr.uses → use ∈ expr.parts
  | ref name, inside => inside
  | subfield base name, inside => by
    obtain rfl := List.mem_singleton.mp inside
    exact List.mem_cons_self
  | uintLit .., inside | sintLit .., inside => by cases inside
  | prim op args consts, inside => List.mem_cons_of_mem _ (mem_partsAll_of_mem_usesAll inside)
  | mux cond whenTrue whenFalse, inside => by
    simp only [uses, parts, List.mem_cons, List.mem_append] at inside ⊢
    exact Or.inr (inside.imp (Or.imp mem_parts_of_mem_uses mem_parts_of_mem_uses) mem_parts_of_mem_uses)
  | validIf cond value, inside => by
    simp only [uses, parts, List.mem_cons, List.mem_append] at inside ⊢
    exact Or.inr (inside.imp mem_parts_of_mem_uses mem_parts_of_mem_uses)

theorem mem_partsAll_of_mem_usesAll : ∀ {exprs : List Expr}, use ∈ usesAll exprs → use ∈ partsAll exprs
  | expr :: rest, inside => by
    simp only [usesAll, partsAll, List.mem_append] at inside ⊢
    exact inside.imp mem_parts_of_mem_uses mem_partsAll_of_mem_usesAll

end

mutual

/-- A field that is selected anywhere in an expression is selected in one of its uses. -/
theorem exists_use_of_mem_parts : ∀ {expr : Expr}, subfield base field ∈ expr.parts →
    ∃ use ∈ expr.uses, subfield base field ∈ use.parts
  | ref _, inside | uintLit .., inside | sintLit .., inside => by simp [parts] at inside
  | subfield _ _, inside => ⟨_, List.mem_cons_self, inside⟩
  | prim op args consts, inside => by
    simp only [parts, List.mem_cons, reduceCtorEq, false_or] at inside
    exact exists_use_of_mem_partsAll inside
  | mux cond whenTrue whenFalse, inside => by
    simp only [parts, List.mem_cons, List.mem_append, reduceCtorEq, false_or] at inside
    simp only [uses, List.mem_append, or_and_right, exists_or]
    exact inside.imp (Or.imp exists_use_of_mem_parts exists_use_of_mem_parts) exists_use_of_mem_parts
  | validIf cond value, inside => by
    simp only [parts, List.mem_cons, List.mem_append, reduceCtorEq, false_or] at inside
    simp only [uses, List.mem_append, or_and_right, exists_or]
    exact inside.imp exists_use_of_mem_parts exists_use_of_mem_parts

theorem exists_use_of_mem_partsAll : ∀ {exprs : List Expr}, subfield base field ∈ partsAll exprs →
    ∃ use ∈ usesAll exprs, subfield base field ∈ use.parts
  | [], inside => by cases inside
  | expr :: rest, inside => by
    simp only [partsAll, List.mem_append] at inside
    simp only [usesAll, List.mem_append, or_and_right, exists_or]
    exact inside.imp exists_use_of_mem_parts exists_use_of_mem_partsAll

end

end Expr

/-- A name has fields when one of the declarations of that name has. -/
theorem RegularModule.hasFields_iff_holder? {module : RegularModule} {root : String} :
    module.HasFields root ↔ ∃ declaration, module.holder? root = some declaration := by
  constructor
  · intro fields
    obtain ⟨declaration, declared, named, hasFields⟩ :
        ∃ declaration ∈ module.declarations, declaration.name = root ∧ declaration.hasFields = true := by
      rcases fields with ⟨callee, declared⟩ | ⟨decl, declared, named⟩
      · exact ⟨_, declared, rfl, rfl⟩
      · exact ⟨_, declared, named, rfl⟩
    refine Option.isSome_iff_exists.mp
      (List.find?_isSome.mpr ⟨declaration, List.mem_reverse.mpr declared, ?_⟩)
    rw [hasFields, named, beq_self_eq_true, Bool.and_self]
  · rintro ⟨declaration, held⟩
    obtain ⟨declared, rfl, hasFields⟩ := holder?_spec held
    cases declaration with
    | signal name => cases hasFields
    | inst name callee => exact Or.inl ⟨callee, declared⟩
    | mem decl => exact Or.inr ⟨decl, declared, rfl⟩

/-- What a use selects on the way to its field can be selected as well. -/
theorem RegularModule.Selects.part {module : RegularModule} {use base : Expr} {field : String}
    (selects : module.Selects use) (inside : .subfield base field ∈ use.parts) :
    module.Selects (.subfield base field) := by
  unfold Selects at selects
  split at selects
  next => simp [Expr.parts] at inside
  next root name =>
    simp only [Expr.parts, List.mem_cons, Expr.subfield.injEq, List.not_mem_nil, reduceCtorEq,
      or_false] at inside
    obtain ⟨rfl, rfl⟩ := inside
    exact selects
  next root port name =>
    simp only [Expr.parts, List.mem_cons, Expr.subfield.injEq, List.not_mem_nil, reduceCtorEq,
      or_false] at inside
    rcases inside with ⟨rfl, rfl⟩ | ⟨rfl, rfl⟩
    · exact selects
    · exact Or.inr selects
  · exact selects.elim

/-- Some field is selected in a module from what is no instance and no memory of it, and no port of a memory
either. -/
def Circuit.Misselects (circuit : Circuit) : Prop :=
  ∃ module, .regular module ∈ circuit.modules ∧ ∃ stmt ∈ module.statements, ∃ expr ∈ stmt.ownExprs,
    ∃ base field, .subfield base field ∈ expr.parts ∧ ¬module.Selects (.subfield base field)

theorem Circuit.selectable_iff_not_misselects {circuit : Circuit} :
    circuit.Selectable ↔ ¬circuit.Misselects := by
  constructor
  · rintro selectable ⟨module, member, stmt, isStmt, expr, held, base, field, inside, bad⟩
    obtain ⟨use, isUse, inUse⟩ := Expr.exists_use_of_mem_parts inside
    have selects := selectable module member stmt isStmt use (List.mem_flatMap.mpr ⟨expr, held, isUse⟩)
    exact bad (selects.part inUse)
  · intro fine module member stmt isStmt use isUse
    obtain ⟨expr, held, inExpr⟩ := List.mem_flatMap.mp isUse
    rcases Expr.ref_or_subfield inExpr with ⟨name, rfl⟩ | ⟨base, field, rfl⟩
    · trivial
    · by_contra bad
      exact fine ⟨module, member, stmt, isStmt, expr, held, base, field,
        Expr.mem_parts_of_mem_uses inExpr, bad⟩

namespace Plan

/-- The sweeps of any two plans bind the same names to the same targets, and that is all it takes to end
alike. -/
def lockstep (plan other : Plan) : Lockstep (isIdentifier · = true) plan other where
  together := Sweep.Agree fun _ => False
  given _ _ _ := True
  asked _ _ := True
  used _ _ _ := True
  rename names agree := by
    refine ⟨⟨fun _ none => none.elim, ?_, ?_, ?_⟩, trivial⟩
    · rw [rename_bindings, rename_bindings, agree.bindings]
    · rw [rename_bindings]
      exact agree.bound
    · exact ⟨plan.rename_kinded agree.kinded.1 names, other.rename_kinded agree.kinded.2 names⟩
  openScope key first agree := agree.openScope key first
  bindInstance base _ names agree := agree.bindInstance base names
  bindMemory names agree := agree.bindMemory names
  consult names agree := agree.nameOf names _
  use homeOk names agree := agree.useExpr homeOk _ names

/-- A pass has to find an order of the modules, and every field must be selected from an instance, from a
memory, or from a port of a memory. The names it picks have no part in this, so two plans for one circuit fail
together. -/
theorem renameCircuit_alongside (plan other : Plan) {circuit : Circuit} (identified : circuit.Identified) :
    Alongside (fun _ _ => True) (plan.renameCircuit Circuit.leafToRoot circuit)
      (other.renameCircuit Circuit.leafToRoot circuit) := by
  have start : Sweep.Agree (fun _ => False) (.start circuit) (.start circuit) :=
    ⟨fun _ _ => rfl, rfl, by simp [Sweep.start, Bindings.empty],
      by simp [Sweep.start, Ledger.Kinded, Ledger.empty]⟩
  exact ((plan.lockstep other).renameCircuit identified.main identified.modules start).imp_ok
    fun _ _ _ _ _ => trivial

/-- The plan that renames nothing. -/
def still : Plan := ⟨.keep, .empty⟩

theorem still_keeps (target : Target) : still.Keeps target :=
  keeps_of_rule fun _ _ picked => by cases picked

/-- The plan that keeps every name is the one that failures are read off: its sweep leaves the ledger
empty. -/
theorem still_sweep_renames (circuit : Circuit) (order : List Module) :
    (still.sweep circuit order).renames = .empty :=
  sweep_kept (fun target _ => still_keeps target) (List.Subset.refl order)

section Follows
variable {circuit : Circuit} {order : List Module} (identified : circuit.Identified)
  (members : ∀ module ∈ order, module ∈ circuit.modules) (names : (order.map Module.name).Nodup)
  {module : RegularModule} (member : .regular module ∈ order) (distinct : module.declaredNames.Nodup)
include identified members names member

theorem selects_of_still {use use' : Expr}
    (isUse : (∃ name, use = .ref name) ∨ ∃ base field, use = .subfield base field) (useOk : use.Identified)
    (followed : (still.sweep circuit order).useExpr ⟨circuit.main, module.name⟩ use = .ok use') :
    module.Selects use := by
  have bindings {root : String} (rootOk : isIdentifier root = true) :=
    still.sweep_find?_holder identified members names member rootOk
  rcases isUse with ⟨name, rfl⟩ | ⟨base, field, rfl⟩
  · trivial
  · rcases Sweep.bound_of_useField followed
      with ⟨root, binding, rfl, bound⟩ | ⟨root, port, memory, rfl, bound⟩
    · rw [bindings (useOk root (by simp [Expr.names]))] at bound
      obtain ⟨declaration, held, -⟩ := Option.bind_eq_some_iff.mp bound
      exact RegularModule.hasFields_iff_holder?.mpr ⟨declaration, held⟩
    · rw [bindings (useOk root (by simp [Expr.names]))] at bound
      obtain ⟨declaration, held, binds⟩ := Option.bind_eq_some_iff.mp bound
      obtain ⟨declared, named, -⟩ := RegularModule.holder?_spec held
      cases declaration with
      | signal name => cases binds
      | inst name callee => cases binds
      | mem decl => exact ⟨decl, declared, named⟩

include distinct

theorem still_of_selects {use : Expr} (useOk : use.Identified) (selects : module.Selects use) :
    ∃ use', (still.sweep circuit order).useExpr ⟨circuit.main, module.name⟩ use = .ok use' := by
  have empty := still_sweep_renames circuit order
  have bindings {root : String} (rootOk : isIdentifier root = true) :=
    still.sweep_find?_holder identified members names member rootOk
  unfold RegularModule.Selects at selects
  split at selects
  next root => exact ⟨_, bind_ok (Sweep.useName_of_empty empty root) rfl⟩
  next root field =>
    obtain ⟨declaration, held⟩ := RegularModule.hasFields_iff_holder?.mp selects
    have bound := bindings (useOk root (by simp [Expr.names]))
    rw [held, Option.bind_some] at bound
    cases declaration with
    | signal name => cases (RegularModule.holder?_spec held).2.2
    | inst name callee =>
      refine ⟨.subfield (.ref root) field, (Sweep.useField_inst bound).trans ?_⟩
      rw [Sweep.nameOf_of_empty empty, Sweep.nameOf_of_empty empty]
      rfl
    | mem decl =>
      refine ⟨.subfield (.ref root) field, (Sweep.useField_memory bound).trans ?_⟩
      rw [Sweep.nameOf_of_empty empty, Sweep.nameOf_of_empty empty]
      rfl
  next root port signal =>
    obtain ⟨decl, declared, named⟩ := selects
    have held : module.holder? root = some (.mem decl) :=
      (RegularModule.holder?_eq_some_iff distinct).mpr ⟨declared, named, rfl⟩
    have bound := bindings (useOk root (by simp [Expr.names]))
    rw [held, Option.bind_some] at bound
    refine ⟨.subfield (.subfield (.ref root) port) signal, (Sweep.useField_signal bound).trans ?_⟩
    rw [Sweep.nameOf_of_empty empty, Sweep.nameOf_of_empty empty]
    rfl
  · exact selects.elim

/-- It renames a module's uses just when the module selects each of them. -/
theorem still_useModule_iff :
    (∃ result, (still.sweep circuit order).useModule ⟨circuit.main, module.name⟩
      (.regular module) = .ok result) ↔
      ∀ stmt ∈ module.statements, ∀ use ∈ stmt.uses, module.Selects use := by
  have inCircuit := members _ member
  constructor
  · rintro ⟨result, run⟩ stmt isStmt use isUse
    obtain ⟨body, mapped, -⟩ := bind_eq_ok.mp run
    obtain ⟨stmt', -, -, exprs⟩ := exists_of_mem_left (Stmt.mapExprsAllM_eq_ok mapped) isStmt
    obtain ⟨expr, held, inExpr⟩ := List.mem_flatMap.mp isUse
    obtain ⟨expr', -, atExpr⟩ := exists_of_mem_left exprs held
    obtain ⟨use', -, followed⟩ := exists_of_mem_left (Sweep.useExpr_uses atExpr) inExpr
    have useOk := identified.use inCircuit isStmt isUse
    exact selects_of_still identified members names member (Expr.ref_or_subfield inExpr) useOk followed
  · intro selects
    have each : ∀ stmt ∈ module.statements, ∀ expr ∈ stmt.ownExprs,
        ∃ mapped, (still.sweep circuit order).useExpr ⟨circuit.main, module.name⟩ expr = .ok mapped := by
      intro stmt isStmt expr held
      refine Sweep.useExpr_total fun use inExpr => ?_
      have isUse : use ∈ stmt.uses := List.mem_flatMap.mpr ⟨expr, held, inExpr⟩
      exact still_of_selects identified members names member distinct (identified.use inCircuit isStmt isUse)
        (selects stmt isStmt use isUse)
    obtain ⟨body, mapped⟩ := Stmt.mapExprsAllM_total each
    exact ⟨_, bind_ok mapped rfl⟩

end Follows

/-- Where nothing is renamed, a circuit that can be put in order goes through just when each use in it can be
followed. -/
theorem still_succeeds_iff {circuit : Circuit} {order : List Module} (identified : circuit.Identified)
    (distinct : ∀ module, .regular module ∈ circuit.modules → module.declaredNames.Nodup)
    (ordered : circuit.leafToRoot = .ok order) :
    (∃ result, still.renameCircuit Circuit.leafToRoot circuit = .ok result) ↔ circuit.Selectable := by
  have all := Circuit.leafToRoot_perm ordered
  have names := (Circuit.leafToRoot_spec ordered).2.2.1.nodup
  -- a module is followed in its turn, when nothing after it is bound yet
  have turns : ∀ module ∈ circuit.modules, ((∃ result, still.turn circuit order module = .ok result) ↔
      ∀ own, module = .regular own → ∀ stmt ∈ own.statements, ∀ use ∈ stmt.uses, own.Selects use) := by
    intro module inCircuit
    obtain ⟨before, rest, rfl⟩ := List.append_of_mem (all.mem_iff.mpr inCircuit)
    rw [turn_kept names fun target _ => still_keeps target]
    cases module with
    | external module => exact iff_of_true ⟨_, rfl⟩ fun own same => by cases same
    | regular module =>
      rw [List.append_cons] at names
      have already : ∀ other ∈ before ++ [Module.regular module], other ∈ circuit.modules :=
          fun other inside =>
        all.mem_iff.mp (by rw [List.append_cons]; exact List.mem_append_left _ inside)
      have soFar : ((before ++ [Module.regular module]).map Module.name).Nodup := by
        rw [List.map_append] at names
        exact names.of_append_left
      refine (still_useModule_iff identified already soFar (by simp) (distinct module inCircuit)).trans ?_
      simp
  rw [still.renameCircuit_total_iff_turns ordered names all, forall₂_congr turns]
  constructor
  · intro selects module member
    exact selects _ member module rfl
  · rintro selectable _ member module rfl
    exact selectable module member

end Plan

namespace Pass

variable {circuit : Circuit} {skips : SkipSet}

/-- A pass on a ledger of its own that does not skip the circuit fails just when the modules cannot be put in
order or a field is selected where it cannot be. The fault has nothing to do with the rule or with what is
skipped: all such passes fail on the circuit with the same one, or none does. -/
theorem run_fails_iff (decoded : circuit.Decoded)
    (distinct : ∀ module, .regular module ∈ circuit.modules → module.declaredNames.Nodup) (spec : RuleSpec)
    (unskipped : skips.contains (.circuit circuit.main) = false) :
    ((∃ fault, (Pass.ofSpec spec).run circuit .empty skips = .error fault) ↔
      (∃ fault, circuit.leafToRoot = .error fault) ∨ circuit.Misselects) ∧
    ∀ (other : RuleSpec) (otherSkips : SkipSet), otherSkips.contains (.circuit circuit.main) = false →
      Alongside (fun _ _ => True) ((Pass.ofSpec spec).run circuit .empty skips)
        ((Pass.ofSpec other).run circuit .empty otherSkips) := by
  have identified := decoded.identified
  have alongside (spec : RuleSpec) (skips : SkipSet)
      (unskipped : skips.contains (.circuit circuit.main) = false) :
      Alongside (fun _ _ => True) ((Pass.ofSpec spec).run circuit .empty skips)
        (Plan.still.renameCircuit Circuit.leafToRoot circuit) := by
    rw [run_empty (by simpa [leavesAlone] using unskipped)]
    exact Plan.renameCircuit_alongside _ _ identified
  refine ⟨?_, fun other otherSkips otherUnskipped =>
    (alongside spec skips unskipped).trans (alongside other otherSkips otherUnskipped).symm⟩
  rw [fails_iff, (alongside spec skips unskipped).succeeds_iff, fails_iff]
  cases ordered : circuit.leafToRoot with
  | error fault =>
    have stuck : ¬∃ result, Plan.still.renameCircuit Circuit.leafToRoot circuit = .ok result := by
      rintro ⟨result, run⟩
      obtain ⟨order, asked⟩ := Plan.renameCircuit_order run
      cases ordered.symm.trans asked
    exact iff_of_true stuck (Or.inl (by simp))
  | ok order =>
    rw [Plan.still_succeeds_iff identified distinct ordered, Circuit.selectable_iff_not_misselects, not_not]
    simp

end Pass

namespace Circuit.Misselecting

/-- A module that selects a field of its own port. -/
def top : RegularModule where
  name := "Top"
  ports := [⟨"A", .input, .uint none⟩]
  body := [.connect (.subfield (.ref "A") "b") (.ref "A")]

def circuit : Circuit := ⟨"Top", [.regular top]⟩

theorem decoded : circuit.Decoded :=
  ⟨.object [("main", .string "Top"),
    ("modules", .array [.object [("kind", .string "module"), ("name", .string "Top"),
    ("ports", .array [Sample.port "A"]),
    ("body", .array [Sample.connect (Sample.field (Sample.ref "A") "b") (Sample.ref "A")])]])], by cbv⟩

theorem misselects : circuit.Misselects := by
  refine ⟨top, by simp [circuit], _, List.mem_cons_self, .subfield (.ref "A") "b",
    List.mem_cons_self, .ref "A", "b", List.mem_cons_self, ?_⟩
  rintro (⟨callee, declared⟩ | ⟨decl, declared, -⟩) <;>
    simp [RegularModule.declarations, RegularModule.statements, top, Stmt.walkAll, Stmt.walk,
      Stmt.declaration?] at declared

end Circuit.Misselecting

open Circuit in
theorem Pass.run_misselecting_fails :
    (∃ fault, (Pass.ofSpec .lowerCase).run Misselecting.circuit .empty .empty = .error fault) ∧
      Alongside (fun _ _ => True) ((Pass.ofSpec .lowerCase).run Misselecting.circuit .empty .empty)
        ((Pass.ofSpec (.prepend "p_")).run Misselecting.circuit .empty ⟨[.module ⟨"Top", "Top"⟩]⟩) := by
  have distinct : ∀ module, .regular module ∈ Misselecting.circuit.modules → module.declaredNames.Nodup := by
    intro module member
    obtain rfl := Module.regular.inj (List.mem_singleton.mp member)
    decide
  have unskipped : SkipSet.empty.contains (.circuit Misselecting.circuit.main) = false := rfl
  obtain ⟨fails, alongside⟩ := Pass.run_fails_iff Misselecting.decoded distinct .lowerCase unskipped
  exact ⟨fails.mpr (Or.inr Misselecting.misselects), alongside (.prepend "p_") _ (by decide +kernel)⟩

end CircuitNames
