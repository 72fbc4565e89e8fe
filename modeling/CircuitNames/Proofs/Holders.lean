import CircuitNames.Proofs.SweepBindings

namespace CircuitNames

namespace Declaration

/-- Fields are selected from instances and memories. -/
def hasFields : Declaration → Bool
  | signal _ => false
  | inst .. | mem _ => true

theorem isSome_binding? (home : ModuleTarget) (declaration : Declaration) :
    (declaration.binding? home).isSome = declaration.hasFields := by
  cases declaration <;> rfl

end Declaration

namespace RegularModule

/-- The declaration that a field of a name is a field of. -/
def holder? (module : RegularModule) (root : String) : Option Declaration :=
  module.declarations.reverse.find? fun declaration => declaration.hasFields && declaration.name == root

variable {module : RegularModule} {root : String} {declaration : Declaration}

/-- A holder is declared in the module under the name, and has fields to select. -/
theorem holder?_spec (held : module.holder? root = some declaration) :
    declaration ∈ module.declarations ∧ declaration.name = root ∧ declaration.hasFields = true := by
  have found := List.find?_some held
  rw [Bool.and_eq_true, beq_iff_eq] at found
  exact ⟨List.mem_reverse.mp (List.mem_of_find?_eq_some held), found.2, found.1⟩

/-- Where no name is declared twice, the declaration of a name is the one that counts. -/
theorem holder?_eq_some_iff (distinct : module.declaredNames.Nodup) :
    module.holder? root = some declaration ↔
      declaration ∈ module.declarations ∧ declaration.name = root ∧ declaration.hasFields = true := by
  refine ⟨holder?_spec, fun ⟨declared, named, hasFields⟩ => ?_⟩
  have found : (module.holder? root).isSome := by
    refine List.find?_isSome.mpr ⟨declaration, List.mem_reverse.mpr declared, ?_⟩
    rw [hasFields, named, beq_self_eq_true, Bool.and_self]
  obtain ⟨other, held⟩ := Option.isSome_iff_exists.mp found
  obtain ⟨otherDeclared, otherNamed, -⟩ := holder?_spec held
  rw [declaredNames_eq] at distinct
  rw [held, List.inj_on_of_nodup_map distinct otherDeclared declared (otherNamed.trans named.symm)]

end RegularModule

namespace Circuit.Identified

variable {circuit : Circuit} (identified : circuit.Identified)
include identified

/-- Looking a name up among the bindings of some declarations finds the first of them that has fields. -/
theorem lookup_bindings {home root : String} (homeOk : isIdentifier home = true)
    (rootOk : isIdentifier root = true) {declarations : List Declaration}
    (names : ∀ declaration ∈ declarations, isIdentifier declaration.name = true) :
    (declarations.filterMap fun declaration => (declaration.binding? ⟨circuit.main, home⟩).map fun binding =>
        (((ModuleTarget.mk circuit.main home).reference declaration.name).text, binding)).lookup
        ((ModuleTarget.mk circuit.main home).reference root).text =
      (declarations.find? fun declaration => declaration.hasFields && declaration.name == root).bind
        (Declaration.binding? ⟨circuit.main, home⟩) := by
  induction declarations with
  | nil => rfl
  | cons declaration rest ih =>
    obtain ⟨nameOk, restOk⟩ := List.forall_mem_cons.mp names
    cases bound : declaration.binding? ⟨circuit.main, home⟩ with
    | none =>
      have without : declaration.hasFields = false := by
        rw [← Declaration.isSome_binding? ⟨circuit.main, home⟩, bound, Option.isSome_none]
      rw [List.filterMap_cons_none (by rw [bound, Option.map_none]), ih restOk,
        List.find?_cons_of_neg (by simp [without])]
    | some binding =>
      have hasFields : declaration.hasFields = true := by
        rw [← Declaration.isSome_binding? ⟨circuit.main, home⟩, bound, Option.isSome_some]
      rw [List.filterMap_cons_some (by rw [bound, Option.map_some]), List.lookup_cons]
      by_cases same : declaration.name = root
      · rw [List.find?_cons_of_pos (by simp [hasFields, same]), same, beq_self_eq_true,
          Option.bind_some, bound]
      · have apart : ((ModuleTarget.mk circuit.main home).reference root).text ≠
            ((ModuleTarget.mk circuit.main home).reference declaration.name).text := by
          intro sameText
          have targets := Target.eq_of_text_eq (identified.reference homeOk rootOk)
            (identified.reference homeOk nameOk) sameText
          exact same (congrArg ReferenceTarget.ref (Target.reference.inj targets)).symm
        rw [beq_false_of_ne apart, ih restOk, List.find?_cons_of_neg (by simp [same])]

/-- Modules bind nothing under the names of another module. -/
theorem lookup_bindings_of_others {modules : List Module}
    (members : ∀ module ∈ modules, module ∈ circuit.modules) {home root : String}
    (homeOk : isIdentifier home = true) (rootOk : isIdentifier root = true)
    (others : home ∉ modules.map Module.name) :
    ((modules.flatMap fun module => (module.actions circuit.main).filterMap Action.binding?).reverse).lookup
      ((ModuleTarget.mk circuit.main home).reference root).text = none := by
  refine List.lookup_eq_none_iff.mpr fun (key, binding) inside => bne_iff_ne.mpr fun same => others ?_
  obtain ⟨_, member, inside⟩ := List.mem_flatMap.mp (List.mem_reverse.mp inside)
  obtain ⟨own, rfl, declaration, declared, -, sameKey⟩ := mem_module_bindings.mp inside
  have held := RegularModule.names_of_declaration declared declaration.name declaration.name_mem_names
  have nameOk := identified.modules _ (members _ member) _ held
  have ownOk : isIdentifier own.name = true := identified.moduleName (members _ member)
  have targets :=
    Target.eq_of_text_eq (identified.reference homeOk rootOk) (identified.reference ownOk nameOk)
    (same.trans sameKey.symm)
  have named : home = own.name := congrArg ReferenceTarget.module (Target.reference.inj targets)
  exact named ▸ List.mem_map_of_mem member

end Circuit.Identified

/-- A module's turn binds what its declarations bind, in their order, so that the last one counts. -/
theorem RegularModule.bindings_actions (main : String) (module : RegularModule) :
    ((Module.regular module).actions main).filterMap Action.binding? =
      module.declarations.filterMap fun declaration =>
        (declaration.binding? ⟨main, module.name⟩).map fun binding =>
        (((ModuleTarget.mk main module.name).reference declaration.name).text, binding) := by
  simp only [Module.actions, List.filterMap_cons, Action.binding?, List.filterMap_flatMap,
    Declaration.bindings_actions]
  exact (List.filterMap_eq_flatMap_toList _ _).symm

namespace Plan

variable {circuit : Circuit} {order : List Module} (plan : Plan)

/-- Whatever else is declared, a name is bound to what holds its fields in the module itself. -/
theorem sweep_find?_holder (identified : circuit.Identified)
    (members : ∀ module ∈ order, module ∈ circuit.modules) (distinct : (order.map Module.name).Nodup)
    {module : RegularModule} (member : .regular module ∈ order) {root : String}
    (rootOk : isIdentifier root = true) :
    (plan.sweep circuit order).bindings.find? ((ModuleTarget.mk circuit.main module.name).reference root) =
      (module.holder? root).bind (Declaration.binding? ⟨circuit.main, module.name⟩) := by
  have homeOk : isIdentifier module.name = true := identified.moduleName (members _ member)
  have names : ∀ declaration ∈ module.declarations.reverse, isIdentifier declaration.name = true := by
    intro declaration inside
    have held := RegularModule.names_of_declaration (List.mem_reverse.mp inside) declaration.name
      declaration.name_mem_names
    exact identified.modules _ (members _ member) _ held
  have own := identified.lookup_bindings homeOk rootOk names
  rw [List.filterMap_reverse, ← RegularModule.bindings_actions] at own
  have entries := plan.sweep_bindings circuit order
  obtain ⟨before, after, rfl⟩ := List.append_of_mem member
  obtain ⟨inBefore, inRest⟩ := List.forall_mem_append.mp members
  rw [List.map_append, List.map_cons, List.nodup_append', List.nodup_cons] at distinct
  obtain ⟨-, ⟨notAfter, -⟩, apart⟩ := distinct
  have notBefore : module.name ∉ before.map Module.name := fun inside => apart inside List.mem_cons_self
  have earlier := identified.lookup_bindings_of_others inBefore homeOk rootOk notBefore
  have later := identified.lookup_bindings_of_others (List.forall_mem_cons.mp inRest).2 homeOk rootOk notAfter
  rw [List.flatMap_append, List.flatMap_cons, List.reverse_append, List.reverse_append] at entries
  rw [Bindings.find?, entries, List.lookup_append, List.lookup_append, earlier, later, own,
    Option.or_none, Option.none_or]
  rfl

variable (ready : circuit.Ready order)
include ready

/-- What is bound to a name of a module is decided by the declaration of that name in the module. -/
theorem sweep_find?_eq_some {module : RegularModule} (member : .regular module ∈ order)
    {root : String} (rootName : isIdentifier root = true) {binding : Binding} :
    (plan.sweep circuit order).bindings.find? ((ModuleTarget.mk circuit.main module.name).reference root) =
        some binding ↔
      ∃ declaration ∈ module.declarations, declaration.name = root ∧
        declaration.binding? ⟨circuit.main, module.name⟩ = some binding := by
  have distinct := (ready.distinct module (ready.ordered.members _ member)).declared
  rw [plan.sweep_find?_holder ready.identified ready.ordered.members ready.ordered.nodup member rootName,
    Option.bind_eq_some_iff]
  constructor
  · rintro ⟨declaration, held, bound⟩
    obtain ⟨declared, named, -⟩ := RegularModule.holder?_spec held
    exact ⟨declaration, declared, named, bound⟩
  · rintro ⟨declaration, declared, named, bound⟩
    have hasFields : declaration.hasFields = true := by
      rw [← Declaration.isSome_binding? ⟨circuit.main, module.name⟩, bound, Option.isSome_some]
    exact ⟨declaration, (RegularModule.holder?_eq_some_iff distinct).mpr ⟨declared, named, hasFields⟩, bound⟩

/-- The name of a declaration is bound to what that declaration binds it to. -/
theorem sweep_find?_declared {module : RegularModule} (member : .regular module ∈ order)
    {declaration : Declaration} (declared : declaration ∈ module.declarations)
    (nameOk : isIdentifier declaration.name = true) :
    (plan.sweep circuit order).bindings.find?
      ((ModuleTarget.mk circuit.main module.name).reference declaration.name) =
      declaration.binding? ⟨circuit.main, module.name⟩ := by
  have names := (ready.distinct module (ready.ordered.members _ member)).declared
  rw [RegularModule.declaredNames_eq] at names
  refine Option.ext fun binding => ?_
  rw [sweep_find?_eq_some plan ready member nameOk]
  constructor
  · rintro ⟨other, otherDeclared, sameName, bound⟩
    exact List.inj_on_of_nodup_map names otherDeclared declared sameName ▸ bound
  · intro bound
    exact ⟨declaration, declared, rfl, bound⟩

/-- After a sweep a name is bound to an instance just when its holder is that instance. -/
theorem sweep_find?_inst {module : RegularModule} (member : .regular module ∈ order)
    {root : String} (rootName : isIdentifier root = true) {target : InstanceTarget} :
    (plan.sweep circuit order).bindings.find? ((ModuleTarget.mk circuit.main module.name).reference root) =
        some (.inst target) ↔
      ∃ callee, .inst root callee ∈ module.declarations ∧
        target = (ModuleTarget.mk circuit.main module.name).inst root callee := by
  rw [sweep_find?_eq_some plan ready member rootName]
  constructor
  · rintro ⟨declaration, declared, rfl, bound⟩
    cases declaration with
    | inst name callee => exact ⟨callee, declared, (Binding.inst.inj (Option.some.inj bound)).symm⟩
    | signal name => cases bound
    | mem decl => cases bound
  · rintro ⟨callee, declared, rfl⟩
    exact ⟨.inst root callee, declared, rfl, rfl⟩

theorem sweep_find?_memory {module : RegularModule} (member : .regular module ∈ order)
    {root : String} (rootName : isIdentifier root = true) {target : ReferenceTarget} :
    (plan.sweep circuit order).bindings.find? ((ModuleTarget.mk circuit.main module.name).reference root) =
        some (.memory target) ↔
      ∃ decl, .mem decl ∈ module.declarations ∧ decl.name = root ∧
        target = (ModuleTarget.mk circuit.main module.name).reference root := by
  rw [sweep_find?_eq_some plan ready member rootName]
  constructor
  · rintro ⟨declaration, declared, rfl, bound⟩
    cases declaration with
    | mem decl => exact ⟨decl, declared, rfl, (Binding.memory.inj (Option.some.inj bound)).symm⟩
    | signal name => cases bound
    | inst name callee => cases bound
  · rintro ⟨decl, declared, rfl, rfl⟩
    exact ⟨.mem decl, declared, rfl, rfl⟩

end Plan

end CircuitNames
