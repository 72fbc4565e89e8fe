import CircuitNames.Proofs.Binds
import CircuitNames.Proofs.Declarations
import CircuitNames.Rename.Uses

namespace CircuitNames

namespace Expr

mutual

/-- The uses of names in an expression, from left to right. A field is used together with what it is
selected from. -/
def uses : Expr → List Expr
  | ref name => [ref name]
  | subfield base name => [subfield base name]
  | uintLit .. | sintLit .. => []
  | prim _ args _ => usesAll args
  | mux cond whenTrue whenFalse => uses cond ++ uses whenTrue ++ uses whenFalse
  | validIf cond value => uses cond ++ uses value

def usesAll : List Expr → List Expr
  | [] => []
  | expr :: rest => uses expr ++ usesAll rest

end

mutual

theorem names_of_mem_uses {use : Expr} :
    ∀ {expr : Expr}, use ∈ expr.uses → ∀ name ∈ use.names, name ∈ expr.names
  | ref name, inside | subfield base name, inside => by
    obtain rfl := List.mem_singleton.mp inside
    exact fun _ holds => holds
  | uintLit .., inside | sintLit .., inside => by cases inside
  | prim _ args _, inside => names_of_mem_usesAll inside
  | mux cond whenTrue whenFalse, inside => by
    intro name holds
    simp only [uses, names, List.mem_append] at inside ⊢
    rcases inside with (inside | inside) | inside
    · exact Or.inl (Or.inl (names_of_mem_uses inside name holds))
    · exact Or.inl (Or.inr (names_of_mem_uses inside name holds))
    · exact Or.inr (names_of_mem_uses inside name holds)
  | validIf cond value, inside => by
    intro name holds
    simp only [uses, names, List.mem_append] at inside ⊢
    exact inside.imp (names_of_mem_uses · name holds) (names_of_mem_uses · name holds)

theorem names_of_mem_usesAll {use : Expr} :
    ∀ {exprs : List Expr}, use ∈ usesAll exprs → ∀ name ∈ use.names, name ∈ namesAll exprs
  | expr :: rest, inside => by
    intro name holds
    simp only [usesAll, namesAll, List.mem_append] at inside ⊢
    exact inside.imp (names_of_mem_uses · name holds) (names_of_mem_usesAll · name holds)

end

mutual

/-- A use is a name or a field. -/
theorem ref_or_subfield {use : Expr} : ∀ {expr : Expr}, use ∈ expr.uses →
    (∃ name, use = .ref name) ∨ ∃ base field, use = .subfield base field
  | .ref name, inside => Or.inl ⟨name, List.mem_singleton.mp inside⟩
  | .subfield base field, inside => Or.inr ⟨base, field, List.mem_singleton.mp inside⟩
  | .uintLit .., inside | .sintLit .., inside => by cases inside
  | .prim _ args _, inside => ref_or_subfield_all inside
  | .mux cond whenTrue whenFalse, inside => by
    simp only [uses, List.mem_append] at inside
    rcases inside with (inside | inside) | inside <;> exact ref_or_subfield inside
  | .validIf cond value, inside => by
    simp only [uses, List.mem_append] at inside
    rcases inside with inside | inside <;> exact ref_or_subfield inside

theorem ref_or_subfield_all {use : Expr} : ∀ {exprs : List Expr}, use ∈ usesAll exprs →
    (∃ name, use = .ref name) ∨ ∃ base field, use = .subfield base field
  | expr :: rest, inside => by
    simp only [usesAll, List.mem_append] at inside
    rcases inside with inside | inside
    · exact ref_or_subfield inside
    · exact ref_or_subfield_all inside

end

end Expr

/-- The uses in the expressions a statement holds itself. -/
def Stmt.uses (stmt : Stmt) : List Expr := stmt.ownExprs.flatMap Expr.uses

namespace Sweep

variable {sweep : Sweep} {home : ModuleTarget}

/-- What is bound to the base of a field decides how the field is followed: here an instance, so that the
field is a port of its module. -/
theorem useField_inst {root field : String} {target : InstanceTarget}
    (bound : sweep.bindings.find? (home.reference root) = some (.inst target)) :
    sweep.useField home (.ref root) field = do
      return .subfield (.ref (← sweep.nameOf root (.inst target)))
        (← sweep.nameOf field (.reference (target.callee.reference field))) := by
  rw [useField, Bindings.require, bound]
  rfl

/-- The base is a memory, and the field one of its ports. -/
theorem useField_memory {root field : String} {memory : ReferenceTarget}
    (bound : sweep.bindings.find? (home.reference root) = some (.memory memory)) :
    sweep.useField home (.ref root) field = do
      return .subfield (.ref (← sweep.nameOf root (.reference memory)))
        (← sweep.nameOf field (.reference (memory.field field))) := by
  rw [useField, Bindings.require, bound]
  rfl

theorem useField_signal {root port signal : String} {memory : ReferenceTarget}
    (bound : sweep.bindings.find? (home.reference root) = some (.memory memory)) :
    sweep.useField home (.subfield (.ref root) port) signal = do
      return .subfield (.subfield (.ref (← sweep.nameOf root (.reference memory)))
        (← sweep.nameOf port (.reference (memory.field port)))) signal := by
  rw [useField, Bindings.require, bound]
  rfl

/-- A port of an instance has no fields that could be followed. -/
theorem useField_belowPort {root port field : String} {target : InstanceTarget}
    (bound : sweep.bindings.find? (home.reference root) = some (.inst target)) :
    sweep.useField home (.subfield (.ref root) port) field =
      .error (.selectionBelowPort root port field home.module) := by
  rw [useField, Bindings.require, bound]
  rfl

theorem useField_unbound {root field : String} (unbound : sweep.bindings.find? (home.reference root) = none) :
    sweep.useField home (.ref root) field = .error (.unboundBase (home.reference root)) := by
  rw [useField, Bindings.require, unbound]
  rfl

theorem useSignal_unbound {root port field : String}
    (unbound : sweep.bindings.find? (home.reference root) = none) :
    sweep.useField home (.subfield (.ref root) port) field = .error (.unboundBase (home.reference root)) := by
  rw [useField, Bindings.require, unbound]
  rfl

/-- What a field is selected from is bound to something, and to a memory where it is a field itself. -/
theorem bound_of_useField {base result : Expr} {field : String}
    (run : sweep.useField home base field = .ok result) :
    (∃ root binding, base = .ref root ∧ sweep.bindings.find? (home.reference root) = some binding) ∨
      ∃ root port memory, base = .subfield (.ref root) port ∧
        sweep.bindings.find? (home.reference root) = some (.memory memory) := by
  cases base with
  | ref root =>
    cases bound : sweep.bindings.find? (home.reference root) with
    | none => cases (useField_unbound bound).symm.trans run
    | some binding => exact Or.inl ⟨root, binding, rfl, bound⟩
  | subfield inner port =>
    cases inner with
    | ref root =>
      cases bound : sweep.bindings.find? (home.reference root) with
      | none => cases (useSignal_unbound bound).symm.trans run
      | some binding =>
        cases binding with
        | inst target => cases (useField_belowPort bound).symm.trans run
        | memory memory => exact Or.inr ⟨root, port, memory, rfl, bound⟩
    | _ => cases run
  | _ => cases run

/-- A field is followed to one that is selected in the same way. The signal of a memory port has the name it
had. -/
theorem useField_shape {base result : Expr} {field : String}
    (run : sweep.useField home base field = .ok result) :
    (∃ root root' field', base = .ref root ∧ result = .subfield (.ref root') field') ∨
      ∃ root port root' port', base = .subfield (.ref root) port ∧
        result = .subfield (.subfield (.ref root') port') field := by
  unfold useField at run
  split at run
  · obtain ⟨binding, _, run⟩ := bind_eq_ok.mp run
    split at run <;>
    · obtain ⟨_, _, run⟩ := bind_eq_ok.mp run
      obtain ⟨_, _, run⟩ := bind_eq_ok.mp run
      exact Or.inl ⟨_, _, _, rfl, (Except.ok.inj run).symm⟩
  · obtain ⟨binding, _, run⟩ := bind_eq_ok.mp run
    split at run
    · cases run
    · obtain ⟨_, _, run⟩ := bind_eq_ok.mp run
      obtain ⟨_, _, run⟩ := bind_eq_ok.mp run
      exact Or.inr ⟨_, _, _, _, rfl, (Except.ok.inj run).symm⟩
  · cases run
  · cases run

theorem useField_eq_ok {base result : Expr} {field : String}
    (run : sweep.useField home base field = .ok result) :
    ∃ base' field', result = .subfield base' field' := by
  rcases useField_shape run with ⟨_, _, _, -, rfl⟩ | ⟨_, _, _, _, -, rfl⟩ <;> exact ⟨_, _, rfl⟩

mutual

/-- Following an expression follows each of the uses in it. -/
theorem useExpr_uses : ∀ {expr result : Expr}, sweep.useExpr home expr = .ok result →
    List.Forall₂ (fun use use' => sweep.useExpr home use = .ok use') expr.uses result.uses
  | .ref name, result, run => by
    obtain ⟨name', _, same⟩ := bind_eq_ok.mp run
    obtain rfl := Except.ok.inj same
    exact .cons run .nil
  | .subfield base field, result, run => by
    obtain ⟨base', field', rfl⟩ := useField_eq_ok run
    exact .cons run .nil
  | .uintLit .., result, run | .sintLit .., result, run => by
    obtain rfl := Except.ok.inj run
    exact .nil
  | .prim op args consts, result, run => by
    obtain ⟨args', atArgs, same⟩ := bind_eq_ok.mp run
    obtain rfl := Except.ok.inj same
    exact useExprs_uses atArgs
  | .mux cond whenTrue whenFalse, result, run => by
    obtain ⟨cond', atCond, run⟩ := bind_eq_ok.mp run
    obtain ⟨true', atTrue, run⟩ := bind_eq_ok.mp run
    obtain ⟨false', atFalse, same⟩ := bind_eq_ok.mp run
    obtain rfl := Except.ok.inj same
    exact List.rel_append (List.rel_append (useExpr_uses atCond) (useExpr_uses atTrue)) (useExpr_uses atFalse)
  | .validIf cond value, result, run => by
    obtain ⟨cond', atCond, run⟩ := bind_eq_ok.mp run
    obtain ⟨value', atValue, same⟩ := bind_eq_ok.mp run
    obtain rfl := Except.ok.inj same
    exact List.rel_append (useExpr_uses atCond) (useExpr_uses atValue)

/-- Uses are renamed one by one: those of the result are the uses of the original, each renamed, in the same
order. -/
theorem useExprs_uses : ∀ {exprs results : List Expr}, sweep.useExprs home exprs = .ok results →
    List.Forall₂ (fun use use' => sweep.useExpr home use = .ok use') (Expr.usesAll exprs)
      (Expr.usesAll results)
  | [], results, run => by
    obtain rfl := Except.ok.inj run
    exact .nil
  | expr :: rest, results, run => by
    obtain ⟨first, atFirst, run⟩ := bind_eq_ok.mp run
    obtain ⟨later, atLater, same⟩ := bind_eq_ok.mp run
    obtain rfl := Except.ok.inj same
    exact List.rel_append (useExpr_uses atFirst) (useExprs_uses atLater)

end

mutual

/-- How an expression is followed depends on the uses in it alone. -/
theorem useExpr_congr {other : Sweep} : ∀ {expr : Expr},
    (∀ use ∈ expr.uses, sweep.useExpr home use = other.useExpr home use) →
    sweep.useExpr home expr = other.useExpr home expr
  | .ref _, same | .subfield _ _, same => same _ (List.mem_singleton_self _)
  | .uintLit .., _ | .sintLit .., _ => rfl
  | .prim op args consts, same => by
    simp only [useExpr, useExprs_congr same]
  | .mux cond whenTrue whenFalse, same => by
    obtain ⟨inFirst, inFalse⟩ := List.forall_mem_append.mp same
    obtain ⟨inCond, inTrue⟩ := List.forall_mem_append.mp inFirst
    simp only [useExpr, useExpr_congr inCond, useExpr_congr inTrue, useExpr_congr inFalse]
  | .validIf cond value, same => by
    obtain ⟨inCond, inValue⟩ := List.forall_mem_append.mp same
    simp only [useExpr, useExpr_congr inCond, useExpr_congr inValue]

theorem useExprs_congr {other : Sweep} : ∀ {exprs : List Expr},
    (∀ use ∈ Expr.usesAll exprs, sweep.useExpr home use = other.useExpr home use) →
    sweep.useExprs home exprs = other.useExprs home exprs
  | [], _ => rfl
  | expr :: rest, same => by
    obtain ⟨inFirst, inRest⟩ := List.forall_mem_append.mp same
    simp only [useExprs, useExpr_congr inFirst, useExprs_congr inRest]

end

mutual

/-- An expression can be followed when each of the uses in it can. -/
theorem useExpr_total : ∀ {expr : Expr}, (∀ use ∈ expr.uses, ∃ use', sweep.useExpr home use = .ok use') →
    ∃ result, sweep.useExpr home expr = .ok result
  | .ref _, each | .subfield _ _, each => each _ (List.mem_singleton_self _)
  | .uintLit .., _ | .sintLit .., _ => ⟨_, rfl⟩
  | .prim op args consts, each => by
    obtain ⟨args', atArgs⟩ := useExprs_total each
    exact ⟨_, bind_eq_ok.mpr ⟨args', atArgs, rfl⟩⟩
  | .mux cond whenTrue whenFalse, each => by
    obtain ⟨inFirst, inFalse⟩ := List.forall_mem_append.mp each
    obtain ⟨inCond, inTrue⟩ := List.forall_mem_append.mp inFirst
    obtain ⟨cond', atCond⟩ := useExpr_total inCond
    obtain ⟨true', atTrue⟩ := useExpr_total inTrue
    obtain ⟨false', atFalse⟩ := useExpr_total inFalse
    exact ⟨_, bind_eq_ok.mpr
      ⟨cond', atCond, bind_eq_ok.mpr ⟨true', atTrue, bind_eq_ok.mpr ⟨false', atFalse, rfl⟩⟩⟩⟩
  | .validIf cond value, each => by
    obtain ⟨inCond, inValue⟩ := List.forall_mem_append.mp each
    obtain ⟨cond', atCond⟩ := useExpr_total inCond
    obtain ⟨value', atValue⟩ := useExpr_total inValue
    exact ⟨_, bind_eq_ok.mpr ⟨cond', atCond, bind_eq_ok.mpr ⟨value', atValue, rfl⟩⟩⟩

theorem useExprs_total : ∀ {exprs : List Expr},
    (∀ use ∈ Expr.usesAll exprs, ∃ use', sweep.useExpr home use = .ok use') →
    ∃ results, sweep.useExprs home exprs = .ok results
  | [], _ => ⟨_, rfl⟩
  | expr :: rest, each => by
    obtain ⟨inFirst, inRest⟩ := List.forall_mem_append.mp each
    obtain ⟨first, atFirst⟩ := useExpr_total inFirst
    obtain ⟨later, atLater⟩ := useExprs_total inRest
    exact ⟨_, bind_eq_ok.mpr ⟨first, atFirst, bind_eq_ok.mpr ⟨later, atLater, rfl⟩⟩⟩

end

/-- Sweeps in which the names of a module stand for the same things, which are called the same. -/
structure AgreeAt (home : ModuleTarget) (sweep other : Sweep) : Prop where
  bound {root : String} (rootOk : isIdentifier root = true) :
    sweep.bindings.find? (home.reference root) = other.bindings.find? (home.reference root)
  own {name : String} (nameOk : isIdentifier name = true) :
    sweep.nameOf name (.reference (home.reference name)) =
      other.nameOf name (.reference (home.reference name))
  inst {root : String} {target : InstanceTarget} (rootOk : isIdentifier root = true)
    (found : sweep.bindings.find? (home.reference root) = some (.inst target)) :
    sweep.nameOf root (.inst target) = other.nameOf root (.inst target)
  instancePort {root port : String} {target : InstanceTarget} (rootOk : isIdentifier root = true)
    (found : sweep.bindings.find? (home.reference root) = some (.inst target))
    (portOk : isIdentifier port = true) :
    sweep.nameOf port (.reference (target.callee.reference port)) =
      other.nameOf port (.reference (target.callee.reference port))
  memory {root : String} {memory : ReferenceTarget} (rootOk : isIdentifier root = true)
    (found : sweep.bindings.find? (home.reference root) = some (.memory memory)) :
      memory = home.reference root
  memoryPort {root port : String} (rootOk : isIdentifier root = true) (portOk : isIdentifier port = true) :
    sweep.nameOf port (.reference ((home.reference root).field port)) =
      other.nameOf port (.reference ((home.reference root).field port))

namespace AgreeAt

variable {other : Sweep} (agree : AgreeAt home sweep other)
include agree

theorem useName {name : String} (nameOk : isIdentifier name = true) :
    sweep.useName home name = other.useName home name := by
  unfold Sweep.useName
  dsimp only
  rw [← agree.bound nameOk]
  split
  · rename_i found
    exact agree.inst nameOk found
  · exact agree.own nameOk

theorem useField {root field : String} (rootOk : isIdentifier root = true)
    (fieldOk : isIdentifier field = true) :
    sweep.useField home (.ref root) field = other.useField home (.ref root) field := by
  have sameBinding := agree.bound rootOk
  cases found : sweep.bindings.find? (home.reference root) with
  | none => rw [useField_unbound found, useField_unbound (sameBinding.symm.trans found)]
  | some binding =>
    cases binding with
    | inst target =>
      rw [useField_inst found, useField_inst (sameBinding.symm.trans found), agree.inst rootOk found,
        agree.instancePort rootOk found fieldOk]
    | memory target =>
      obtain rfl := agree.memory rootOk found
      rw [useField_memory found, useField_memory (sameBinding.symm.trans found), agree.own rootOk,
        agree.memoryPort rootOk fieldOk]

theorem useSignal {root port : String} (rootOk : isIdentifier root = true) (portOk : isIdentifier port = true)
    (signal : String) : sweep.useField home (.subfield (.ref root) port) signal =
      other.useField home (.subfield (.ref root) port) signal := by
  have sameBinding := agree.bound rootOk
  cases found : sweep.bindings.find? (home.reference root) with
  | none => rw [useSignal_unbound found, useSignal_unbound (sameBinding.symm.trans found)]
  | some binding =>
    cases binding with
    | inst target => rw [useField_belowPort found, useField_belowPort (sameBinding.symm.trans found)]
    | memory target =>
      obtain rfl := agree.memory rootOk found
      rw [useField_signal found, useField_signal (sameBinding.symm.trans found), agree.own rootOk,
        agree.memoryPort rootOk portOk]

theorem useExpr {expr : Expr} (names : expr.Identified) :
    sweep.useExpr home expr = other.useExpr home expr := by
  refine useExpr_congr fun use inside => ?_
  have useNames : use.Identified := fun name holds => names name (Expr.names_of_mem_uses inside name holds)
  rcases Expr.ref_or_subfield inside with ⟨name, rfl⟩ | ⟨base, field, rfl⟩
  · have nameOk := useNames name List.mem_cons_self
    exact congrArg (· >>= fun name => Except.ok (Expr.ref name)) (agree.useName nameOk)
  · match base, useNames with
    | .ref root, useNames =>
      have fieldOk := useNames field (by simp [Expr.names])
      exact agree.useField (useNames root (by simp [Expr.names])) fieldOk
    | .subfield (.ref root) port, useNames =>
      have portOk := useNames port (by simp [Expr.names])
      exact agree.useSignal (useNames root (by simp [Expr.names])) portOk field
    | .subfield (.subfield _ _) _, _ | .subfield (.uintLit _ _) _, _ | .subfield (.sintLit _ _) _, _
    | .subfield (.prim _ _ _) _, _ | .subfield (.mux _ _ _) _, _ | .subfield (.validIf _ _) _, _
    | .uintLit _ _, _ | .sintLit _ _, _ | .prim _ _ _, _ | .mux _ _ _, _ | .validIf _ _, _ => rfl

end AgreeAt

end Sweep

end CircuitNames
