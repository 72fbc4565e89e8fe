import CircuitNames.Proofs.Designation
import CircuitNames.Proofs.PassRun

namespace CircuitNames

/-- A module as it comes out of a run: its names given by one function, its expressions by another. -/
structure RegularModule.RenamedTo (names : Target → String) (home : ModuleTarget)
    (follow : Expr → Except Fault Expr) (module result : RegularModule) : Prop where
  name : result.name = names (.module home)
  ports : result.ports =
    module.ports.map fun port => { port with name := names (.reference (home.reference port.name)) }
  statements : List.Forall₂ (fun stmt renamed =>
    renamed.declaration? = stmt.declaration?.map (Declaration.renamed names home) ∧
      List.Forall₂ (fun expr followed => follow expr = .ok followed) stmt.ownExprs renamed.ownExprs)
    module.statements result.statements

namespace RegularModule.RenamedTo

variable {names : Target → String} {home : ModuleTarget} {follow : Expr → Except Fault Expr}
  {module result : RegularModule} (renamed : module.RenamedTo names home follow result)
include renamed

/-- A renamed module declares what the module did, under the names that were given. -/
theorem declarations : result.declarations = module.declarations.map (Declaration.renamed names home) := by
  have fromStatements : result.statements.filterMap Stmt.declaration? =
      (module.statements.filterMap Stmt.declaration?).map (Declaration.renamed names home) := by
    have each := renamed.statements
    generalize module.statements = stmts at each
    generalize result.statements = results at each
    induction each with
    | nil => rfl
    | @cons stmt result rest results first _ ih =>
      rw [List.filterMap_cons, List.filterMap_cons, ih, first.1]
      cases stmt.declaration? <;> rfl
  rw [RegularModule.declarations, RegularModule.declarations, fromStatements, renamed.ports, List.map_append,
    List.map_map, List.map_map]
  rfl

/-- What stands at a position stands there still, under the name it got. -/
theorem declarationAt? (spot : Spot) :
    (Module.regular result).declarationAt? spot =
      ((Module.regular module).declarationAt? spot).map (Declaration.renamed names home) := by
  cases spot with
  | port index =>
    simp only [Module.declarationAt?, Module.ports, renamed.ports, List.getElem?_map, Option.map_map]
    rfl
  | stmt index =>
    have each := renamed.statements
    simp only [Module.declarationAt?, Module.statements]
    generalize module.statements = stmts at each
    generalize result.statements = results at each
    induction each generalizing index with
    | nil => rfl
    | cons first _ ih =>
      cases index with
      | zero => exact first.1
      | succ index => exact ih index

theorem declaredNames :
    result.declaredNames = module.declarations.map fun declaration => names (declaration.target home) := by
  rw [declaredNames_eq, renamed.declarations, List.map_map]
  exact List.map_congr_left fun declaration _ => declaration.name_renamed names home

/-- A memory of the result is a memory of the module renamed. -/
theorem of_mem_statements {decl : MemDecl} (inside : .mem decl ∈ result.statements) :
    ∃ own, .mem own ∈ module.statements ∧ decl = own.renamed names home := by
  have declares := mem_mem_declarations.mpr inside
  rw [renamed.declarations] at declares
  obtain ⟨declaration, declared, same⟩ := List.mem_map.mp declares
  cases declaration with
  | mem own => exact ⟨own, mem_mem_declarations.mp declared, (Declaration.mem.inj same).symm⟩
  | signal name => cases same
  | inst name callee => cases same

omit renamed in
/-- The uses of a result stand where the uses stood that they follow. -/
theorem uses {sweep : Sweep} (renamed : module.RenamedTo names home (sweep.useExpr home) result) :
    List.Forall₂ (fun stmt stmt' => stmt ∈ module.statements ∧
      List.Forall₂ (fun use use' => use ∈ stmt.uses ∧ sweep.useExpr home use = .ok use') stmt.uses stmt'.uses)
      module.statements result.statements := by
  refine forall₂_imp_of_mem renamed.statements fun stmt isStmt stmt' ⟨_, each⟩ => ⟨isStmt, ?_⟩
  have followed := List.rel_flatMap each fun _ _ => Sweep.useExpr_uses
  exact forall₂_imp_of_mem followed fun use isUse use' follows => ⟨isUse, follows⟩

end RegularModule.RenamedTo

theorem MemDecl.portsIn_renamed (names : Target → String) (home : ModuleTarget) (decl : MemDecl)
    (role : PortRole) :
    (decl.renamed names home).portsIn role =
      (decl.portsIn role).map fun port => names (.reference ((home.reference decl.name).field port)) := by
  cases role <;> rfl

namespace Plan

variable {circuit : Circuit} {order : List Module} {plan : Plan}

theorem follow_name {module result : Module} (followed : plan.follow circuit order module = .ok result) :
    result.name = plan.naming circuit order (.module ⟨circuit.main, module.name⟩) := by
  cases module with
  | external module =>
    obtain rfl := Except.ok.inj followed
    rfl
  | regular module =>
    obtain ⟨body, _, built⟩ := bind_eq_ok.mp followed
    obtain rfl := Except.ok.inj built
    rfl

theorem follow_external {module : ExternalModule} {result : Module}
    (followed : plan.follow circuit order (.external module) = .ok result) :
    result = .external
      { module with name := plan.naming circuit order (.module ⟨circuit.main, module.name⟩) } :=
  (Except.ok.inj followed).symm

/-- To follow a regular module is to rename it by the naming of the sweep and follow its uses. -/
theorem follow_regular {module : RegularModule} {result : Module}
    (followed : plan.follow circuit order (.regular module) = .ok result) :
    ∃ own, result = .regular own ∧ module.RenamedTo (plan.naming circuit order) ⟨circuit.main, module.name⟩
      ((plan.sweep circuit order).useExpr ⟨circuit.main, module.name⟩) own := by
  obtain ⟨body, mapped, built⟩ := bind_eq_ok.mp followed
  obtain rfl := Except.ok.inj built
  refine ⟨_, rfl, rfl, rfl, ?_⟩
  have each := Stmt.mapExprsAllM_eq_ok mapped
  rw [Stmt.walkAll_renamedAll, List.forall₂_map_left_iff] at each
  refine each.imp fun stmt result mapsTo => ⟨?_, ?_⟩
  · rw [mapsTo.1, Stmt.declaration?_renamed]
  · rw [← Stmt.ownExprs_renamed]
    exact mapsTo.2

/-- A module can be followed when each of the uses in it can. -/
theorem follow_total {module : Module}
    (each : ∀ own, module = .regular own → ∀ stmt ∈ own.statements, ∀ use ∈ stmt.uses,
      ∃ use', (plan.sweep circuit order).useExpr ⟨circuit.main, own.name⟩ use = .ok use') :
    ∃ result, plan.follow circuit order module = .ok result := by
  cases module with
  | external module => exact ⟨_, rfl⟩
  | regular module =>
    have parts : ∀ part ∈
        Stmt.walkAll (Stmt.renamedAll (plan.naming circuit order) ⟨circuit.main, module.name⟩ module.body),
        ∀ expr ∈ part.ownExprs, ∃ mapped,
          (plan.sweep circuit order).useExpr ⟨circuit.main, module.name⟩ expr = .ok mapped := by
      rw [Stmt.walkAll_renamedAll]
      intro part isPart expr held
      obtain ⟨stmt, isStmt, rfl⟩ := List.mem_map.mp isPart
      rw [Stmt.ownExprs_renamed] at held
      exact Sweep.useExpr_total fun use isUse =>
        each module rfl stmt isStmt use (List.mem_flatMap.mpr ⟨expr, held, isUse⟩)
    obtain ⟨body, mapped⟩ := Stmt.mapExprsAllM_total parts
    exact ⟨_, bind_eq_ok.mpr ⟨body, mapped, rfl⟩⟩

end Plan

end CircuitNames
