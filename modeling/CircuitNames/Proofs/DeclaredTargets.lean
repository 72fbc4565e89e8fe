import CircuitNames.Proofs.ModuleOrder
import CircuitNames.Proofs.SweepNames
import CircuitNames.Proofs.SweepScopes
import Mathlib.Data.List.Flatten

namespace CircuitNames

/-- Lists that belong to distinct keys have nothing in common. -/
theorem nodup_flatMap_of_key {α β γ : Type} {items : List α} {parts : α → List β}
    {key : α → γ} {keyOf : β → γ} (distinct : (items.map key).Nodup)
    (each : ∀ item ∈ items, (parts item).Nodup)
    (keyed : ∀ item ∈ items, ∀ part ∈ parts item, keyOf part = key item) : (items.flatMap parts).Nodup := by
  refine List.nodup_flatMap.mpr ⟨each, (List.pairwise_map.mp distinct).imp_of_mem ?_⟩
  intro item other member otherMember apart part here there
  exact apart ((keyed item member part here).symm.trans (keyed other otherMember part there))

namespace Target

/-- The module a target is in. -/
def moduleName? : Target → Option String
  | .circuit _ => none
  | .module target => some target.module
  | .inst target => some target.module
  | .reference target => some target.module

/-- The name of the declaration a target is part of. -/
def baseName : Target → String
  | .circuit name => name
  | .module target => target.module
  | .inst target => target.inst
  | .reference target => target.ref

end Target

namespace Declaration

variable {home : ModuleTarget} {declaration : Declaration} {target : Target}

/-- The targets of a declaration: its own, and those of the ports of a memory. -/
def targets (home : ModuleTarget) (declaration : Declaration) : List Target :=
  declaration.target home :: declaration.portTargets home

theorem terminalName_target (home : ModuleTarget) (declaration : Declaration) :
    (declaration.target home).terminalName = declaration.name := by
  cases declaration <;> rfl

theorem mem_portTargets : target ∈ declaration.portTargets home ↔
    ∃ decl port, declaration = .mem decl ∧ port ∈ decl.portNames ∧
      target = .reference ((home.reference decl.name).field port) := by
  cases declaration with
  | signal name => simp [portTargets]
  | inst name module => simp [portTargets]
  | mem decl => simp [portTargets, eq_comm]

/-- The targets of a declaration carry its name: the instance, or references to it and below it. -/
theorem of_mem_targets (inside : target ∈ declaration.targets home) :
    (∃ name module, declaration = .inst name module ∧ target = .inst (home.inst name module)) ∨
      ∃ fields, target = .reference ⟨home.circuit, home.module, [], declaration.name, fields⟩ := by
  rcases List.mem_cons.mp inside with rfl | below
  · cases declaration with
    | signal name => exact Or.inr ⟨[], rfl⟩
    | inst name module => exact Or.inl ⟨name, module, rfl, rfl⟩
    | mem decl => exact Or.inr ⟨[], rfl⟩
  · obtain ⟨decl, port, rfl, _, rfl⟩ := mem_portTargets.mp below
    exact Or.inr ⟨[port], rfl⟩

theorem moduleName?_of_mem (inside : target ∈ declaration.targets home) :
    target.moduleName? = some home.module := by
  rcases of_mem_targets inside with ⟨name, module, -, rfl⟩ | ⟨fields, rfl⟩ <;> rfl

theorem baseName_of_mem (inside : target ∈ declaration.targets home) :
    target.baseName = declaration.name := by
  rcases of_mem_targets inside with ⟨name, module, rfl, rfl⟩ | ⟨fields, rfl⟩ <;> rfl

theorem not_module_of_mem (inside : target ∈ declaration.targets home) (module : ModuleTarget) :
    target ≠ .module module := by
  rcases of_mem_targets inside with ⟨name, callee, -, rfl⟩ | ⟨fields, rfl⟩ <;> simp

theorem targets_nodup (distinct : ∀ decl, declaration = .mem decl → decl.portNames.Nodup) :
    (declaration.targets home).Nodup := by
  refine List.nodup_cons.mpr ⟨fun again => ?_, ?_⟩
  · obtain ⟨decl, port, rfl, _, same⟩ := mem_portTargets.mp again
    simp [target, ModuleTarget.reference, ReferenceTarget.field] at same
  · cases declaration with
    | signal name => exact List.nodup_nil
    | inst name module => exact List.nodup_nil
    | mem decl =>
      refine (distinct decl rfl).map fun port other same => ?_
      simpa [ReferenceTarget.field] using same

/-- A target of a declaration spells out its circuit, its module and names of the declaration, and nothing
else. -/
theorem names_of_mem (inside : target ∈ declaration.targets home) :
    ∀ name ∈ target.names, name = home.circuit ∨ name = home.module ∨ name ∈ declaration.names := by
  rcases List.mem_cons.mp inside with rfl | below
  · cases declaration <;>
      simp [Declaration.target, Target.names, names, ModuleTarget.reference, ModuleTarget.inst]
  · obtain ⟨decl, port, rfl, isPort, rfl⟩ := mem_portTargets.mp below
    simp [Target.names, names, ModuleTarget.reference, ReferenceTarget.field, isPort]

theorem targets_identified (circuitName : isIdentifier home.circuit = true)
    (moduleName : isIdentifier home.module = true)
    (own : ∀ name ∈ declaration.names, isIdentifier name = true) :
    ∀ target ∈ declaration.targets home, target.Identified := by
  intro target inside name holds
  rcases names_of_mem inside name holds with rfl | rfl | declared
  · exact circuitName
  · exact moduleName
  · exact own name declared

theorem declared_actions (home : ModuleTarget) (declaration : Declaration) :
    declared (declaration.actions home) = declaration.targets home := by
  cases declaration with
  | signal name => rfl
  | inst name module => rfl
  | mem decl =>
    simp only [actions, declared, targets, portTargets, List.filterMap_cons, Action.target?,
      List.filterMap_map]
    exact congrArg _ (List.filterMap_eq_map ▸ rfl)

theorem asked_actions {asked : Target} (asks : asked ∈ (declaration.actions home).filterMap Action.asked?) :
    ∃ name module, declaration = .inst name module ∧ asked = .module ⟨home.circuit, module⟩ := by
  cases declaration with
  | signal name => simp [actions, Action.asked?] at asks
  | inst name module => exact ⟨name, module, rfl, by simpa [actions, Action.asked?] using asks⟩
  | mem decl => simp [actions, Action.asked?] at asks

theorem opened_actions (home : ModuleTarget) (declaration : Declaration) :
    (opened (declaration.actions home)).Sublist
      ((declaration.targets home).map fun target => .inside target.text) := by
  cases declaration with
  | signal name => exact List.nil_sublist _
  | inst name module => exact List.nil_sublist _
  | mem decl =>
    have ports : opened (decl.portNames.map fun port => .declare (.inside (home.reference decl.name).text)
        (.reference ((home.reference decl.name).field port))) = [] := by
      simp [opened, Action.opens?]
    have only : opened ((mem decl).actions home) = [.inside (home.reference decl.name).text] :=
      congrArg _ ports
    rw [only]
    exact (List.nil_sublist _).cons_cons _

theorem scoped_actions {known : List ScopeKey} (inScope : .inside home.text ∈ known) :
    Scoped known (declaration.actions home) := by
  cases declaration with
  | signal name => exact ⟨inScope, trivial⟩
  | inst name module => exact ⟨inScope, trivial⟩
  | mem decl =>
    refine ⟨inScope, ?_⟩
    have here : .inside (home.reference decl.name).text ∈ .inside (home.reference decl.name).text :: known :=
      List.mem_cons_self
    change Scoped _ (decl.portNames.map _)
    generalize .inside (home.reference decl.name).text :: known = more at here
    induction decl.portNames with
    | nil => exact trivial
    | cons port rest ih => exact ⟨here, ih⟩

end Declaration

namespace Module

variable {main : String} {module : Module} {target : Target}

/-- The targets that a module declares: its own, and those of its declarations if it is a regular one. -/
def targets (main : String) : Module → List Target
  | .external module => [.module ⟨main, module.name⟩]
  | .regular module =>
    .module ⟨main, module.name⟩ :: module.declarations.flatMap (Declaration.targets ⟨main, module.name⟩)

theorem declared_actions (main : String) (module : Module) :
    declared (module.actions main) = module.targets main := by
  cases module with
  | external module => rfl
  | regular module =>
    have each := funext (Declaration.declared_actions ⟨main, module.name⟩)
    simp only [actions, declared, targets, List.filterMap_cons, Action.target?, List.filterMap_flatMap]
    exact congrArg (fun parts => _ :: module.declarations.flatMap parts) each

theorem mem_targets_regular {module : RegularModule} : target ∈ (Module.regular module).targets main ↔
    target = .module ⟨main, module.name⟩ ∨
      ∃ declaration ∈ module.declarations, target ∈ declaration.targets ⟨main, module.name⟩ := by
  simp only [targets, List.mem_cons, List.mem_flatMap]

theorem moduleName?_of_mem (inside : target ∈ module.targets main) :
    target.moduleName? = some module.name := by
  cases module with
  | external module => exact List.mem_singleton.mp inside ▸ rfl
  | regular module =>
    rcases mem_targets_regular.mp inside with rfl | ⟨declaration, _, inside⟩
    · rfl
    · exact Declaration.moduleName?_of_mem inside

/-- The only module among the targets of a module is itself. -/
theorem eq_of_module_mem {other : ModuleTarget} (inside : .module other ∈ module.targets main) :
    other = ⟨main, module.name⟩ := by
  cases module with
  | external module => exact Target.module.inj (List.mem_singleton.mp inside)
  | regular module =>
    rcases mem_targets_regular.mp inside with same | ⟨declaration, _, inside⟩
    · exact Target.module.inj same
    · exact absurd rfl (Declaration.not_module_of_mem inside other)

theorem targets_nodup (distinct : ∀ own, module = .regular own → own.Distinct) :
    (module.targets main).Nodup := by
  cases module with
  | external module => exact List.nodup_singleton _
  | regular module =>
    obtain ⟨declared, memories⟩ := distinct module rfl
    rw [RegularModule.declaredNames_eq] at declared
    have each : ∀ declaration ∈ module.declarations, (declaration.targets ⟨main, module.name⟩).Nodup :=
      fun declaration member =>
        Declaration.targets_nodup fun decl same =>
          memories decl (RegularModule.mem_mem_declarations.mp (same ▸ member))
    have keyed : ∀ declaration ∈ module.declarations, ∀ target ∈ declaration.targets ⟨main, module.name⟩,
        target.baseName = declaration.name := fun _ _ _ inside => Declaration.baseName_of_mem inside
    refine List.nodup_cons.mpr ⟨fun again => ?_, nodup_flatMap_of_key declared each keyed⟩
    obtain ⟨declaration, _, inside⟩ := List.mem_flatMap.mp again
    exact Declaration.not_module_of_mem inside _ rfl

theorem targets_identified (mainName : isIdentifier main = true)
    (names : ∀ name ∈ module.names, isIdentifier name = true) :
    ∀ target ∈ module.targets main, target.Identified := by
  have own := names module.name module.name_mem_names
  intro target inside
  cases module with
  | external module =>
    obtain rfl := List.mem_singleton.mp inside
    simpa [Target.Identified, Target.names] using ⟨mainName, own⟩
  | regular module =>
    rcases mem_targets_regular.mp inside with rfl | ⟨declaration, member, inside⟩
    · simpa [Target.Identified, Target.names] using ⟨mainName, own⟩
    · refine Declaration.targets_identified mainName own (fun name held => names name ?_) target inside
      exact RegularModule.names_of_declaration member name held

theorem asked_actions {asked : Target} (asks : asked ∈ (module.actions main).filterMap Action.asked?) :
    ∃ edge ∈ module.instances, asked = .module ⟨main, edge.module⟩ := by
  cases module with
  | external module => simp [actions, Action.asked?] at asks
  | regular module =>
    simp only [actions, List.filterMap_cons, Action.asked?, List.filterMap_flatMap, List.mem_flatMap] at asks
    obtain ⟨declaration, member, asks⟩ := asks
    obtain ⟨name, callee, rfl, rfl⟩ := Declaration.asked_actions asks
    exact ⟨⟨name, callee⟩, RegularModule.inst_mem_declarations.mp member, rfl⟩

theorem opened_actions (main : String) (module : Module) :
    (opened (module.actions main)).Sublist ((module.targets main).map fun target => .inside target.text) := by
  cases module with
  | external module => exact List.nil_sublist _
  | regular module =>
    have each := fun declaration (_ : declaration ∈ module.declarations) =>
      Declaration.opened_actions ⟨main, module.name⟩ declaration
    simp only [actions, opened, targets, List.filterMap_cons, Action.opens?,
      List.filterMap_flatMap, List.map_cons, List.map_flatMap]
    exact (List.Sublist.flatMap_right module.declarations each).cons_cons _

/-- A module's turn declares its own target among the modules, and all others in scopes that it opens
itself. -/
theorem scoped_actions {known : List ScopeKey} (inScope : .modules ∈ known) :
    Scoped known (module.actions main) := by
  cases module with
  | external module => exact ⟨inScope, trivial⟩
  | regular module =>
    refine ⟨List.mem_cons_of_mem _ inScope, ?_⟩
    have here : .inside (ModuleTarget.mk main module.name).text ∈
        .inside (ModuleTarget.mk main module.name).text :: known := List.mem_cons_self
    generalize .inside (ModuleTarget.mk main module.name).text :: known = more at here
    induction module.declarations with
    | nil => exact trivial
    | cons declaration rest ih =>
      exact (Declaration.scoped_actions here).append (ih.mono (List.subset_append_right _ _))

end Module

namespace Circuit.Identified

variable {circuit : Circuit} (identified : circuit.Identified) {home name port callee : String}
include identified

theorem moduleName {module : Module} (member : module ∈ circuit.modules) : isIdentifier module.name = true :=
  identified.modules module member _ module.name_mem_names

theorem expr {module : RegularModule} (member : .regular module ∈ circuit.modules) {stmt : Stmt}
    (inside : stmt ∈ module.statements) {expr : Expr} (held : expr ∈ stmt.ownExprs) : expr.Identified := by
  intro name holds
  refine identified.modules _ member name ?_
  simp only [Module.names, List.mem_append, List.mem_flatMap]
  exact Or.inr ⟨stmt, inside, List.mem_append_right _ (List.mem_flatMap.mpr ⟨expr, held, holds⟩)⟩

theorem reference (homeOk : isIdentifier home = true) (nameOk : isIdentifier name = true) :
    (Target.reference ((ModuleTarget.mk circuit.main home).reference name)).Identified := by
  simpa [Target.Identified, Target.names, ModuleTarget.reference] using ⟨identified.main, homeOk, nameOk⟩

theorem field (homeOk : isIdentifier home = true) (nameOk : isIdentifier name = true)
    (portOk : isIdentifier port = true) :
    (Target.reference (((ModuleTarget.mk circuit.main home).reference name).field port)).Identified := by
  simpa [Target.Identified, Target.names, ModuleTarget.reference, ReferenceTarget.field]
    using ⟨identified.main, homeOk, nameOk, portOk⟩

theorem inst (homeOk : isIdentifier home = true) (nameOk : isIdentifier name = true)
    (calleeOk : isIdentifier callee = true) :
    (Target.inst ((ModuleTarget.mk circuit.main home).inst name callee)).Identified := by
  simpa [Target.Identified, Target.names, ModuleTarget.inst] using ⟨identified.main, homeOk, nameOk, calleeOk⟩

end Circuit.Identified

end CircuitNames
