import CircuitNames.Proofs.RegularLedgers
import CircuitNames.Proofs.RenamedModules

namespace CircuitNames

namespace Sweep

variable {sweep : Sweep} (identifies : sweep.renames.Identifies) {home : ModuleTarget}
include identifies

/-- A sweep that has recorded identifiers only makes identifiers of identifiers. -/
theorem nameOf_identified {name result : String} {target : Target} (identifier : isIdentifier name = true)
    (run : sweep.nameOf name target = .ok result) : isIdentifier result = true := by
  unfold nameOf at run
  split at run
  · exact Except.ok.inj run ▸ identifier
  · rename_i found
    split at run
    · exact Except.ok.inj run ▸ (identifies.resolve? found).terminalName
    · cases run

theorem useName_identified {name result : String} (identifier : isIdentifier name = true)
    (run : sweep.useName home name = .ok result) : isIdentifier result = true := by
  unfold useName at run
  dsimp only at run
  split at run
  · exact nameOf_identified identifies identifier run
  · exact nameOf_identified identifies identifier run

theorem useField_identified {base result : Expr} {field : String}
    (names : (Expr.subfield base field).Identified) (run : sweep.useField home base field = .ok result) :
    result.Identified := by
  have fieldOk : isIdentifier field = true := names field (by simp [Expr.names])
  unfold useField at run
  split at run
  · rename_i root
    have rootOk : isIdentifier root = true := names root (by simp [Expr.names])
    obtain ⟨binding, _, run⟩ := bind_eq_ok.mp run
    split at run <;>
    · obtain ⟨root', atRoot, run⟩ := bind_eq_ok.mp run
      obtain ⟨field', atField, run⟩ := bind_eq_ok.mp run
      obtain rfl := Except.ok.inj run
      have rootOk' := nameOf_identified identifies rootOk atRoot
      have fieldOk' := nameOf_identified identifies fieldOk atField
      simpa [Expr.Identified, Expr.names] using ⟨rootOk', fieldOk'⟩
  · rename_i root port
    have rootOk : isIdentifier root = true := names root (by simp [Expr.names])
    have portOk : isIdentifier port = true := names port (by simp [Expr.names])
    obtain ⟨binding, _, run⟩ := bind_eq_ok.mp run
    split at run
    · cases run
    · obtain ⟨root', atRoot, run⟩ := bind_eq_ok.mp run
      obtain ⟨port', atPort, run⟩ := bind_eq_ok.mp run
      obtain rfl := Except.ok.inj run
      have rootOk' := nameOf_identified identifies rootOk atRoot
      have portOk' := nameOf_identified identifies portOk atPort
      simpa [Expr.Identified, Expr.names] using ⟨rootOk', portOk', fieldOk⟩
  · cases run
  · cases run

omit identifies

mutual

/-- An expression is followed to one with identifiers for names. -/
theorem useExpr_identified (identifies : sweep.renames.Identifies) : ∀ {expr result : Expr},
    expr.Identified → sweep.useExpr home expr = .ok result → result.Identified
  | .ref name, result, names, run => by
    obtain ⟨name', atName, same⟩ := bind_eq_ok.mp run
    obtain rfl := Except.ok.inj same
    exact List.forall_mem_singleton.mpr (useName_identified identifies (names name List.mem_cons_self) atName)
  | .subfield base field, result, names, run => useField_identified identifies names run
  | .uintLit .., result, names, run | .sintLit .., result, names, run => by
    obtain rfl := Except.ok.inj run
    exact List.forall_mem_nil _
  | .prim op args consts, result, names, run => by
    obtain ⟨args', atArgs, same⟩ := bind_eq_ok.mp run
    obtain rfl := Except.ok.inj same
    exact useExprs_identified identifies names atArgs
  | .mux cond whenTrue whenFalse, result, names, run => by
    obtain ⟨cond', atCond, run⟩ := bind_eq_ok.mp run
    obtain ⟨true', atTrue, run⟩ := bind_eq_ok.mp run
    obtain ⟨false', atFalse, same⟩ := bind_eq_ok.mp run
    obtain rfl := Except.ok.inj same
    obtain ⟨early, inFalse⟩ := List.forall_mem_append.mp names
    obtain ⟨inCond, inTrue⟩ := List.forall_mem_append.mp early
    have ofCond := useExpr_identified identifies inCond atCond
    have ofTrue := useExpr_identified identifies inTrue atTrue
    have ofFalse := useExpr_identified identifies inFalse atFalse
    exact List.forall_mem_append.mpr ⟨List.forall_mem_append.mpr ⟨ofCond, ofTrue⟩, ofFalse⟩
  | .validIf cond value, result, names, run => by
    obtain ⟨cond', atCond, run⟩ := bind_eq_ok.mp run
    obtain ⟨value', atValue, same⟩ := bind_eq_ok.mp run
    obtain rfl := Except.ok.inj same
    obtain ⟨inCond, inValue⟩ := List.forall_mem_append.mp names
    have ofCond := useExpr_identified identifies inCond atCond
    have ofValue := useExpr_identified identifies inValue atValue
    exact List.forall_mem_append.mpr ⟨ofCond, ofValue⟩

theorem useExprs_identified (identifies : sweep.renames.Identifies) : ∀ {exprs results : List Expr},
    (∀ name ∈ Expr.namesAll exprs, isIdentifier name = true) → sweep.useExprs home exprs = .ok results →
      ∀ name ∈ Expr.namesAll results, isIdentifier name = true
  | [], results, names, run => by
    obtain rfl := Except.ok.inj run
    exact List.forall_mem_nil _
  | expr :: rest, results, names, run => by
    obtain ⟨first, atFirst, run⟩ := bind_eq_ok.mp run
    obtain ⟨later, atLater, same⟩ := bind_eq_ok.mp run
    obtain rfl := Except.ok.inj same
    obtain ⟨inFirst, inRest⟩ := List.forall_mem_append.mp names
    have ofFirst := useExpr_identified identifies inFirst atFirst
    have ofRest := useExprs_identified identifies inRest atLater
    exact List.forall_mem_append.mpr ⟨ofFirst, ofRest⟩

end

end Sweep

section Renamed
variable {names : Target → String}
  (given : ∀ target : Target, target.Identified → isIdentifier (names target) = true)
  {home : ModuleTarget} (circuitOk : isIdentifier home.circuit = true)
  (homeOk : isIdentifier home.module = true)
include given circuitOk homeOk

theorem Declaration.renamed_identified {declaration : Declaration}
    (own : ∀ name ∈ declaration.names, isIdentifier name = true) :
    ∀ name ∈ (declaration.renamed names home).names, isIdentifier name = true := by
  have targets := declaration.targets_identified circuitOk homeOk own
  have first := given _ (targets _ List.mem_cons_self)
  cases declaration with
  | signal name => exact List.forall_mem_singleton.mpr first
  | inst name callee =>
    have calleeOk : isIdentifier callee = true := own callee (by simp [Declaration.names])
    have module : (Target.module ⟨home.circuit, callee⟩).Identified := by
      simpa [Target.Identified, Target.names] using ⟨circuitOk, calleeOk⟩
    exact List.forall_mem_cons.mpr ⟨first, List.forall_mem_singleton.mpr (given _ module)⟩
  | mem decl =>
    refine List.forall_mem_cons.mpr ⟨first, ?_⟩
    rw [MemDecl.portNames_renamed]
    intro name inside
    obtain ⟨port, isPort, rfl⟩ := List.mem_map.mp inside
    exact given _ (targets _ (List.mem_cons_of_mem _ (mem_portTargets.mpr ⟨decl, port, rfl, isPort, rfl⟩)))

/-- A renamed module has identifiers for names when its old names and the given ones are identifiers. -/
theorem RegularModule.RenamedTo.identified {follow : Expr → Except Fault Expr} {module result : RegularModule}
    (renamed : module.RenamedTo names home follow result)
    (follows : ∀ expr result, expr.Identified → follow expr = .ok result → result.Identified)
    (own : ∀ name ∈ (Module.regular module).names, isIdentifier name = true) :
    ∀ name ∈ (Module.regular result).names, isIdentifier name = true := by
  obtain ⟨ofPorts, ofStatements⟩ := List.forall_mem_append.mp own
  obtain ⟨-, ofPorts⟩ := List.forall_mem_cons.mp ofPorts
  have homeTarget : (Target.module home).Identified := by
    simpa [Target.Identified, Target.names] using ⟨circuitOk, homeOk⟩
  refine List.forall_mem_append.mpr ⟨List.forall_mem_cons.mpr ⟨?_, ?_⟩, ?_⟩
  · exact renamed.name ▸ given _ homeTarget
  · rw [renamed.ports, List.map_map]
    intro name inside
    obtain ⟨port, isPort, rfl⟩ := List.mem_map.mp inside
    have portOk := ofPorts port.name (List.mem_map_of_mem isPort)
    refine given _ ?_
    simpa [Target.Identified, Target.names, ModuleTarget.reference] using ⟨circuitOk, homeOk, portOk⟩
  · intro name inside
    obtain ⟨result, isResult, inside⟩ := List.mem_flatMap.mp inside
    obtain ⟨stmt, isStmt, declares, each⟩ := exists_of_mem_right renamed.statements isResult
    obtain ⟨declared, held⟩ := List.forall_mem_append.mp fun name holds =>
      ofStatements name (List.mem_flatMap.mpr ⟨stmt, isStmt, holds⟩)
    rcases List.mem_append.mp inside with inside | inside
    · rw [declares] at inside
      cases found : stmt.declaration? with
      | none => simp [found] at inside
      | some declaration =>
        simp only [found, Option.map_some, Option.getD_some] at inside declared
        exact Declaration.renamed_identified given circuitOk homeOk declared name inside
    · obtain ⟨followed, isFollowed, holds⟩ := List.mem_flatMap.mp inside
      obtain ⟨expr, isExpr, gave⟩ := exists_of_mem_right each isFollowed
      have identified : expr.Identified := fun name inExpr =>
        held name (List.mem_flatMap.mpr ⟨expr, isExpr, inExpr⟩)
      exact follows expr followed identified gave name holds

end Renamed

/-- A rule that picks identifiers leaves a circuit in which every name is one. -/
theorem Plan.renameCircuit_identified {plan : Plan} (proper : plan.rule.Identifies) {circuit out : Circuit}
    {order : List Module} (ready : circuit.Ready order) (all : order.Perm circuit.modules)
    {orderOf : Circuit → Except Fault (List Module)} (asked : orderOf circuit = .ok order) {renames : Ledger}
    (run : plan.renameCircuit orderOf circuit = .ok (out, renames)) : out.Identified := by
  obtain ⟨main, -, followed⟩ := (plan.renameCircuit_eq_ok ready all asked).mp run
  have identifies := (sweep_regular proper ready).identifies
  have given : ∀ target : Target, target.Identified →
      isIdentifier (plan.naming circuit order target) = true :=
    fun target => identifies.name
  constructor
  · exact main ▸ given _ (by simpa [Target.Identified, Target.names] using ready.identified.main)
  · intro result inside
    obtain ⟨module, member, gave⟩ := exists_of_mem_right followed inside
    have homeOk := ready.identified.moduleName member
    have own := ready.identified.modules module member
    cases module with
    | external module =>
      obtain rfl := follow_external gave
      have homeTarget : (Target.module ⟨circuit.main, module.name⟩).Identified := by
        simpa [Target.Identified, Target.names] using ⟨ready.identified.main, homeOk⟩
      exact List.forall_mem_cons.mpr ⟨given _ homeTarget, (List.forall_mem_cons.mp own).2⟩
    | regular module =>
      obtain ⟨result, rfl, renamed⟩ := follow_regular gave
      exact renamed.identified given ready.identified.main homeOk
        (fun _ _ names => Sweep.useExpr_identified identifies names) own

end CircuitNames
