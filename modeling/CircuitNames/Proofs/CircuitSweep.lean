import CircuitNames.Proofs.DeclaredTargets

namespace CircuitNames

theorem Declaration.declaredIn_home (home : ModuleTarget) (declaration : Declaration) :
    declaredIn (.inside home.text) (declaration.actions home) = [declaration.target home] := by
  cases declaration with
  | signal name => simp [actions, declaredIn, Action.targetIn?, target]
  | inst name module =>
    simp only [actions, declaredIn, List.filterMap_cons, List.filterMap_nil, Action.targetIn?,
      if_true, target]
  | mem decl =>
    have apart : (home.reference decl.name).text ≠ home.text := by
      intro same
      have lengths := congrArg List.length (String.ofList_injective same)
      simp [ReferenceTarget.chars, ModuleTarget.reference] at lengths
    simp [actions, declaredIn, Action.targetIn?, target, apart]

theorem Module.declaredIn_modules (main : String) (module : Module) :
    declaredIn .modules (module.actions main) = [.module ⟨main, module.name⟩] := by
  cases module with
  | external module => rfl
  | regular module =>
    have inside : ∀ declaration : Declaration,
        declaredIn .modules (declaration.actions ⟨main, module.name⟩) = [] := by
      intro declaration
      cases declaration <;> simp [Declaration.actions, declaredIn, Action.targetIn?]
    simp only [actions, declaredIn, List.filterMap_cons, Action.targetIn?, List.filterMap_flatMap] at inside ⊢
    simp [inside, Module.name]

namespace Circuit

/-- What a sweep over modules does: the circuit name goes first, then the modules follow the order. -/
def actions (circuit : Circuit) (order : List Module) : List Action :=
  .declare .circuit (.circuit circuit.main) :: order.flatMap (Module.actions circuit.main)

variable {circuit : Circuit} {order : List Module}

/-- What a sweep declares is the circuit's name and then each module's targets, module by module. -/
theorem declared_actions (circuit : Circuit) (order : List Module) :
    declared (circuit.actions order) =
      .circuit circuit.main :: order.flatMap (Module.targets circuit.main) := by
  have each := funext (Module.declared_actions circuit.main)
  simp only [actions, declared, List.filterMap_cons, Action.target?, List.filterMap_flatMap]
  exact congrArg (fun parts => _ :: order.flatMap parts) each

theorem declared_of_mem_actions {module : Module} {action : Action} {target : Target}
    (member : action ∈ module.actions circuit.main) (declares : action.target? = some target) :
    target ∈ module.targets circuit.main :=
  Module.declared_actions circuit.main module ▸ List.mem_filterMap.mpr ⟨action, member, declares⟩

/-- What a module asks for is declared by no module from it on: its callees stand before it. -/
theorem before_of_splits (ordered : Hierarchy.Ordered circuit order) {before after : List Module}
    {module other : Module} (splits : order = before ++ module :: after) (from_ : other ∈ module :: after)
    {first later : Action} (isFirst : first ∈ module.actions circuit.main)
    (isLater : later ∈ other.actions circuit.main) :
    Action.Before first later := by
  intro asked target asks declares same
  obtain ⟨edge, isInstance, rfl⟩ := Module.asked_actions (List.mem_filterMap.mpr ⟨first, isFirst, asks⟩)
  have named := Module.eq_of_module_mem (same ▸ declared_of_mem_actions isLater declares)
  have calleeBefore := ordered.callee_before splits edge isInstance
  have distinct := ordered.nodup
  rw [splits, List.map_append, List.nodup_append'] at distinct
  have calleeHere : edge.module ∈ (module :: after).map Module.name :=
    List.mem_map.mpr ⟨other, from_, (congrArg ModuleTarget.module named).symm⟩
  exact distinct.2.2 calleeBefore calleeHere

/-- In an order where callees come first, no action needs a name that a later one gives. -/
theorem actions_before (ordered : Hierarchy.Ordered circuit order) :
    (order.flatMap (Module.actions circuit.main)).Pairwise Action.Before := by
  suffices suffixes : ∀ before after, order = before ++ after →
      (after.flatMap (Module.actions circuit.main)).Pairwise Action.Before from suffixes [] order rfl
  intro before after splits
  induction after generalizing before with
  | nil => exact List.Pairwise.nil
  | cons module rest ih =>
    rw [List.flatMap_cons, List.pairwise_append]
    refine ⟨List.pairwise_of_forall_mem_list fun first isFirst later isLater => ?_,
      ih (before ++ [module]) ?_, ?_⟩
    · exact before_of_splits ordered splits List.mem_cons_self isFirst isLater
    · simpa using splits
    · intro first isFirst later inside
      obtain ⟨other, member, isLater⟩ := List.mem_flatMap.mp inside
      exact before_of_splits ordered splits (List.mem_cons_of_mem _ member) isFirst isLater

theorem callee_identified (identified : circuit.Identified) {module : RegularModule}
    (member : .regular module ∈ circuit.modules) {name callee : String}
    (declared : .inst name callee ∈ module.declarations) :
    isIdentifier callee = true :=
  identified.modules _ member callee
    (RegularModule.names_of_declaration declared callee (by simp [Declaration.names]))

theorem instance_identified (identified : circuit.Identified) {module : Module}
    (member : module ∈ circuit.modules) {edge : InstanceEdge} (isInstance : edge ∈ module.instances) :
    isIdentifier edge.module = true := by
  cases module with
  | external module => cases isInstance
  | regular module =>
    exact callee_identified identified member (RegularModule.inst_mem_declarations.mpr isInstance)

theorem declared_identified (identified : circuit.Identified) (ordered : Hierarchy.Ordered circuit order) :
    ∀ target ∈ declared (circuit.actions order), target.Identified := by
  intro target inside
  rw [declared_actions] at inside
  rcases List.mem_cons.mp inside with rfl | inside
  · simpa [Target.Identified, Target.names] using identified.main
  · obtain ⟨module, member, inside⟩ := List.mem_flatMap.mp inside
    have names := identified.modules module (ordered.members module member)
    exact Module.targets_identified identified.main names target inside

/-- What is not declared does not share its text with anything that is. -/
theorem text_ne_of_undeclared (identified : circuit.Identified) (ordered : Hierarchy.Ordered circuit order)
    {target : Target} (names : target.Identified) (undeclared : target ∉ declared (circuit.actions order)) :
    ∀ other ∈ declared (circuit.actions order), target.text ≠ other.text := by
  intro other inside same
  have others := declared_identified identified ordered other inside
  exact undeclared (Target.eq_of_text_eq names others same ▸ inside)

/-- Nothing is declared twice in a sweep over modules whose names are distinct. -/
theorem declared_nodup (distinct : circuit.LocallyDistinct) (ordered : Hierarchy.Ordered circuit order) :
    (declared (circuit.actions order)).Nodup := by
  rw [declared_actions]
  have names : (order.map (some ∘ Module.name)).Nodup := by
    rw [← List.map_map]
    exact ordered.nodup.map fun _ _ => Option.some.inj
  have each : ∀ module ∈ order, (module.targets circuit.main).Nodup := fun module member =>
    Module.targets_nodup fun own same => distinct own (same ▸ ordered.members module member)
  have keyed : ∀ module ∈ order, ∀ target ∈ module.targets circuit.main,
      target.moduleName? = some module.name :=
    fun _ _ _ inside => Module.moduleName?_of_mem inside
  refine List.nodup_cons.mpr ⟨fun again => ?_, nodup_flatMap_of_key names each keyed⟩
  obtain ⟨module, _, inside⟩ := List.mem_flatMap.mp again
  cases Module.moduleName?_of_mem inside

theorem actions_scoped (circuit : Circuit) (order : List Module) :
    Scoped [.circuit, .modules] (circuit.actions order) := by
  refine ⟨by simp, ?_⟩
  have inScope : ScopeKey.modules ∈ [ScopeKey.circuit, .modules] := by simp
  generalize [ScopeKey.circuit, .modules] = known at inScope
  induction order with
  | nil => exact trivial
  | cons module rest ih =>
    exact (Module.scoped_actions inScope).append (ih.mono (List.subset_append_right _ _))

/-- Every scope belongs to a target of its own. -/
theorem opened_sublist (circuit : Circuit) (order : List Module) :
    (opened (circuit.actions order)).Sublist
      ((declared (circuit.actions order)).map fun target => .inside target.text) := by
  rw [declared_actions, List.map_cons, List.map_flatMap]
  simp only [actions, opened, List.filterMap_cons, Action.opens?, List.filterMap_flatMap]
  exact (List.Sublist.flatMap_right order fun module _ => Module.opened_actions circuit.main module).cons _

theorem inside_of_opened {key : ScopeKey} (opens : key ∈ opened (circuit.actions order)) :
    ∃ owner, key = .inside owner := by
  obtain ⟨target, _, rfl⟩ := List.mem_map.mp ((opened_sublist circuit order).subset opens)
  exact ⟨target.text, rfl⟩

/-- What a sweep relies on: names that are identifiers, distinct ones within each module, and an order of
modules in which all follow those they instantiate. -/
structure Ready (circuit : Circuit) (order : List Module) : Prop where
  identified : circuit.Identified
  distinct : circuit.LocallyDistinct
  ordered : Hierarchy.Ordered circuit order

variable (ready : circuit.Ready order)
include ready

theorem actions_orderly : Orderly (circuit.actions order) where
  identified := declared_identified ready.identified ready.ordered
  asked := by
    intro asked asks
    simp only [actions, List.filterMap_cons, Action.asked?, List.filterMap_flatMap, List.mem_flatMap] at asks
    obtain ⟨module, member, asks⟩ := asks
    obtain ⟨edge, isInstance, rfl⟩ := Module.asked_actions asks
    have callee := instance_identified ready.identified (ready.ordered.members module member) isInstance
    simpa [Target.Identified, Target.names] using ⟨ready.identified.main, callee⟩
  distinct := declared_nodup ready.distinct ready.ordered
  before := List.pairwise_cons.mpr ⟨by simp [Action.Before, Action.asked?], actions_before ready.ordered⟩

theorem opened_nodup : (opened (circuit.actions order)).Nodup := by
  refine List.Nodup.sublist (opened_sublist circuit order) ?_
  refine List.Nodup.map_on (fun target here other there same => ?_)
    (declared_nodup ready.distinct ready.ordered)
  have names := declared_identified ready.identified ready.ordered
  exact Target.eq_of_text_eq (names target here) (names other there) (ScopeKey.inside.inj same)

end Circuit

namespace Plan

variable {circuit : Circuit} {order : List Module}

/-- The sweep over the declarations of a whole circuit. -/
def sweep (plan : Plan) (circuit : Circuit) (order : List Module) : Sweep :=
  plan.perform (circuit.actions order) (.start circuit)

/-- The name that each declaration gets. -/
def naming (plan : Plan) (circuit : Circuit) (order : List Module) : Target → String :=
  (plan.sweep circuit order).renames.name

variable (plan : Plan) (ready : circuit.Ready order)
include ready

theorem naming_gives :
    plan.Gives (plan.naming circuit order) (circuit.actions order) (.start circuit) :=
  gives_perform (Circuit.actions_orderly ready) Ledger.plain_empty fun _ _ => rfl

theorem sweep_plain : (plan.sweep circuit order).renames.Plain :=
  perform_plain (Circuit.actions_orderly ready) Ledger.plain_empty fun _ _ => rfl

/-- In a scope that is opened on the way the names are picked from its first names on. -/
theorem names_of_opened {before inside after : List Action} {key : ScopeKey} {first : Scope}
    (splits : circuit.actions order = before ++ .openScope key first :: (inside ++ after)) :
    (declaredIn key inside).map (plan.naming circuit order) =
      (plan.pickAll (declaredIn key inside) first).1 := by
  have gives := plan.naming_gives ready
  have scopes := circuit.actions_scoped order
  have once := Circuit.opened_nodup ready
  have opens : key ∈ opened (circuit.actions order) := by
    rw [splits]
    exact List.mem_filterMap.mpr ⟨.openScope key first, by simp, rfl⟩
  obtain ⟨owner, rfl⟩ := Circuit.inside_of_opened opens
  rw [splits] at gives scopes once
  have unknown : (Sweep.start circuit).scopes.lookup (.inside owner) = none := rfl
  exact map_declaredIn_opened scopes once (by simp) unknown gives

/-- The modules get the names picked for them in their order, from the names they have on. -/
theorem naming_modules :
    order.map (fun module => plan.naming circuit order (.module ⟨circuit.main, module.name⟩)) =
      (plan.pickAll (order.map fun module => .module ⟨circuit.main, module.name⟩)
        (.ofCircuit circuit)).1 := by
  have modules : declaredIn .modules (circuit.actions order) =
      order.map fun module => .module ⟨circuit.main, module.name⟩ := by
    have each := funext (Module.declaredIn_modules circuit.main)
    simp only [Circuit.actions, declaredIn, List.filterMap_cons, Action.targetIn?, List.filterMap_flatMap,
      reduceCtorEq, if_false] at each ⊢
    rw [each, List.map_eq_flatMap]
  have given := map_declaredIn (plan.naming_gives ready)
    (show (Sweep.start circuit).scopes.lookup .modules = some (.ofCircuit circuit) from rfl)
  rwa [modules, List.map_map] at given

/-- The declarations of a module get the names picked for them in their order, from the names they have on. -/
theorem naming_declarations {module : RegularModule} (member : .regular module ∈ order) :
    module.declarations.map (fun declaration =>
        plan.naming circuit order (declaration.target ⟨circuit.main, module.name⟩)) =
      (plan.pickAll (module.declarations.map (Declaration.target ⟨circuit.main, module.name⟩))
        (.ofModule module)).1 := by
  let home : ModuleTarget := ⟨circuit.main, module.name⟩
  obtain ⟨before, after, splits⟩ := List.append_of_mem member
  have splitActions : circuit.actions order =
      (.declare .circuit (.circuit circuit.main) :: before.flatMap (Module.actions circuit.main)) ++
        .openScope (.inside home.text) (.ofModule module) ::
          ((.declare .modules (.module home) :: module.declarations.flatMap (Declaration.actions home)) ++
            after.flatMap (Module.actions circuit.main)) := by
    simp [Circuit.actions, splits, Module.actions, home]
  have here : declaredIn (.inside home.text)
      (.declare .modules (.module home) :: module.declarations.flatMap (Declaration.actions home)) =
      module.declarations.map (Declaration.target home) := by
    have each := funext (Declaration.declaredIn_home home)
    simp only [declaredIn, List.filterMap_cons, Action.targetIn?, List.filterMap_flatMap, reduceCtorEq,
      if_false] at each ⊢
    rw [each, List.map_eq_flatMap]
  have given := plan.names_of_opened ready splitActions
  rwa [here, List.map_map] at given

/-- The ports of a memory get the names picked for them in their order, from the names they have on. -/
theorem naming_memoryPorts {module : RegularModule} (member : .regular module ∈ order)
    {decl : MemDecl} (declares : .mem decl ∈ module.statements) :
    decl.portNames.map (fun port => plan.naming circuit order
        (.reference (((ModuleTarget.mk circuit.main module.name).reference decl.name).field port))) =
      (plan.pickAll (decl.portNames.map fun port =>
        .reference (((ModuleTarget.mk circuit.main module.name).reference decl.name).field port))
          (.ofMemory decl)).1 := by
  let home : ModuleTarget := ⟨circuit.main, module.name⟩
  let memory := home.reference decl.name
  obtain ⟨before, after, splits⟩ := List.append_of_mem member
  obtain ⟨early, late, splitDeclarations⟩ :=
    List.append_of_mem (RegularModule.mem_mem_declarations.mpr declares)
  have splitActions : circuit.actions order =
      (.declare .circuit (.circuit circuit.main) :: before.flatMap (Module.actions circuit.main) ++
        .openScope (.inside home.text) (.ofModule module) :: .declare .modules (.module home) ::
          early.flatMap (Declaration.actions home) ++ [.declare (.inside home.text) (.reference memory)]) ++
        .openScope (.inside memory.text) (.ofMemory decl) ::
          ((.bindMemory memory :: decl.portNames.map fun port =>
              .declare (.inside memory.text) (.reference (memory.field port))) ++
            (late.flatMap (Declaration.actions home) ++ after.flatMap (Module.actions circuit.main))) := by
    simp [Circuit.actions, splits, Module.actions, splitDeclarations, Declaration.actions, home, memory]
  have here : declaredIn (.inside memory.text) (.bindMemory memory :: decl.portNames.map fun port =>
      .declare (.inside memory.text) (.reference (memory.field port))) =
      decl.portNames.map fun port => .reference (memory.field port) :=
    (declaredIn_cons _ _).trans (declaredIn_map _ _ _)
  have given := plan.names_of_opened ready splitActions
  rwa [here, List.map_map] at given

end Plan

end CircuitNames
