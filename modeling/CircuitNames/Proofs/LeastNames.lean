import CircuitNames.Proofs.Entities
import CircuitNames.Proofs.RepeatedPasses
import CircuitNames.Proofs.ScopeHistories

namespace CircuitNames

/-- What a map makes of a name, if it changes it. -/
def changed (map : String → String) (name : String) :
    Option String := if map name = name then none else some (map name)

/-- The rules that go by an image of the name, each with the image that it wants for a name, or none. -/
inductive RuleSpec.Wants : RuleSpec → (String → Option String) → Prop
  | lowerCase : Wants .lowerCase (changed CircuitNames.lowerCase)
  | upperCase : Wants .upperCase (changed CircuitNames.upperCase)
  | prepend (front : String) : Wants (.prepend front) fun name => some (front ++ name)

/-- A rule that goes by an image picks the new name that the scope has for the image. -/
theorem RuleSpec.Wants.picks {spec : RuleSpec} {image : String → Option String}
    (wants : spec.Wants image) (name : String) (scope : Scope) :
    (spec.rule name scope).1 = (image name).map fun wanted => (scope.newName wanted).1 := by
  have cased (map : String → String) : (Rule.changeCase map name scope).1 =
      (changed map name).map fun wanted => (scope.newName wanted).1 := by
    unfold Rule.changeCase changed
    split <;> rfl
  cases wants with
  | lowerCase => exact cased _
  | upperCase => exact cased _
  | prepend front => rfl

/-- What a target is called by a rule that goes by an image, beside names that are taken. -/
structure SkipSet.Grants (skips : SkipSet) (image : String → Option String) (taken : List String)
    (target : Target) (given : String) : Prop where
  skipped : skips.contains target = true → given = target.terminalName
  kept : image target.terminalName = none → given = target.terminalName
  least : ∀ wanted, skips.contains target = false → image target.terminalName = some wanted →
    Scope.LeastFree taken wanted given

namespace Plan

variable {spec : RuleSpec} {image : String → Option String} (wants : spec.Wants image) (skips : SkipSet)

include wants in
/-- Each name in a scope gets the image that the rule wants for it, or the image with the least number, and
all that counts is which names the scope had at first and which it has given out by then. -/
theorem pick_grants {scope : Scope} (counted : scope.Counted) (target : Target) :
    skips.Grants image scope.names target (Plan.pick ⟨spec.rule, skips⟩ target scope).1 := by
  have picks := wants.picks target.terminalName scope
  have skipped (isSkipped : skips.contains target = true) :
      (Plan.pick ⟨spec.rule, skips⟩ target scope).1 = target.terminalName := by
    rw [pick, if_pos isSkipped]
  refine ⟨skipped, fun noImage => ?_, fun wanted unskipped isWanted => ?_⟩
  · cases isSkipped : skips.contains target with
    | true => exact skipped isSkipped
    | false => exact pick_of_none isSkipped (by rw [picks, noImage]; rfl)
  · have ruled : (spec.rule target.terminalName scope).1 = some (scope.newName wanted).1 := by
      rw [picks, isWanted]
      rfl
    rw [pick_of_some unskipped ruled]
    exact counted.leastFree wanted

theorem pickAll_reserved {plan : Plan} (fair : plan.rule.Fair) {targets : List Target} {scope : Scope}
    (own : ∀ target ∈ targets, target.terminalName ∈ scope.names) :
    (plan.pickAll targets scope).1 ⊆ (plan.pickAll targets scope).2.names := by
  induction targets generalizing scope with
  | nil => exact List.nil_subset _
  | cons target rest ih =>
    obtain ⟨ownFirst, ownRest⟩ := List.forall_mem_cons.mp own
    have reserved : (plan.pick target scope).1 ∈ (plan.pickAll rest (plan.pick target scope).2).2.names :=
      pickAll_keeps fair (pick_reserved fair ownFirst)
    exact List.cons_subset.mpr ⟨reserved, ih fun other inside => pick_keeps fair (ownRest other inside)⟩

/-- A scope holds the names it had at first and those it has given out, when what is named in it was among the
first. -/
theorem mem_pickAll_iff {plan : Plan} (steady : plan.rule.Steady) {targets : List Target} {scope : Scope}
    (own : ∀ target ∈ targets, target.terminalName ∈ scope.names) {name : String} :
    name ∈ (plan.pickAll targets scope).2.names ↔
      name ∈ scope.names ∨ name ∈ (plan.pickAll targets scope).1 := by
  refine ⟨mem_pickAll steady, ?_⟩
  rintro (before | given)
  · exact pickAll_keeps steady.fair before
  · exact pickAll_reserved steady.fair own given

include wants in
/-- Of names that are given one after the other in a scope, each goes by the first names and those given
before it. -/
theorem grants_of_pickAll {names : List String} {entities before after : List Entity} {entity : Entity}
    {given : Target → String} (own : ∀ entity ∈ entities, entity.target.terminalName ∈ names)
    (picked : entities.map (fun entity => given entity.target) =
      (Plan.pickAll ⟨spec.rule, skips⟩ (entities.map Entity.target) (.ofNames names)).1)
    (splits : entities = before ++ entity :: after) :
    skips.Grants image (names ++ before.map fun other => given other.target) entity.target
      (given entity.target) := by
  let plan : Plan := ⟨spec.rule, skips⟩
  let between := (plan.pickAll (before.map Entity.target) (.ofNames names)).2
  have ownBefore : ∀ target ∈ before.map Entity.target, target.terminalName ∈
      (Scope.ofNames names).names := by
    intro target inside
    obtain ⟨other, isBefore, rfl⟩ := List.mem_map.mp inside
    exact Scope.mem_ofNames.mpr (own other (splits ▸ List.mem_append_left _ isBefore))
  rw [splits, List.map_append, List.map_append, pickAll_append, List.map_cons, List.map_cons] at picked
  obtain ⟨early, here⟩ := List.append_inj picked (by simp [length_pickAll])
  have given_eq : given entity.target = (plan.pick entity.target between).1 := (List.cons.inj here).1
  have taken : ∀ name, name ∈ between.names ↔ name ∈ names ++ before.map fun other => given other.target := by
    intro name
    rw [List.mem_append, early, mem_pickAll_iff (RuleSpec.steady spec) ownBefore, Scope.mem_ofNames]
  have counted : between.Counted := pickAll_counted (RuleSpec.steady spec) (Scope.counted_ofNames names)
  have grants := pick_grants wants skips counted entity.target
  rw [given_eq]
  exact ⟨grants.skipped, grants.kept, fun wanted unskipped isWanted =>
    (grants.least wanted unskipped isWanted).congr taken⟩

end Plan

/-- The naming scopes of a circuit: the names that a scope has at first, and what is named in it, in the order
in which the modules and what they declare are visited. -/
inductive Circuit.NamingScope (circuit : Circuit) (order : List Module) : List String → List Entity → Prop
  | circuit : NamingScope circuit order (circuit.modules.map Module.name) [⟨.circuit, .circuit circuit.main⟩]
  | modules {members : List Entity}
      (each : List.Forall₂ (fun module entity => ∃ position, circuit.modules[position]? = some module ∧
        entity = ⟨.module position, .module (circuit.home module)⟩) order members) :
      NamingScope circuit order (circuit.modules.map Module.name) members
  | declarations {position : Nat} {module : RegularModule}
      (atHome : circuit.modules[position]? = some (.regular module)) :
      NamingScope circuit order module.declaredNames
        (module.spots.map fun (spot, declaration) =>
          ⟨.declaration position spot, declaration.target (circuit.home (.regular module))⟩)
  | memoryPorts {position : Nat} {module : RegularModule} {spot : Spot} {decl : MemDecl}
      (atHome : circuit.modules[position]? = some (.regular module))
      (atSpot : (Module.regular module).declarationAt? spot = some (.mem decl)) :
      NamingScope circuit order decl.portNames
        (decl.portPlaces.map fun (role, index, port) => ⟨.memoryPort position spot role index,
          .reference (((circuit.home (.regular module)).reference decl.name).field port)⟩)

namespace Circuit

variable {circuit : Circuit} {order : List Module} {names : List String} {members : List Entity}

theorem NamingScope.declared (scope : circuit.NamingScope order names members) :
    members ⊆ circuit.entities := by
  intro entity inside
  rw [mem_entities]
  cases scope with
  | circuit =>
    obtain rfl := List.mem_singleton.mp inside
    exact .circuit
  | modules each =>
    obtain ⟨module, -, position, atHome, rfl⟩ := exists_of_mem_right each inside
    exact .module atHome
  | declarations atHome =>
    obtain ⟨⟨spot, declaration⟩, atSpot, rfl⟩ := List.mem_map.mp inside
    exact .declaration atHome (RegularModule.mem_spots.mp atSpot)
  | memoryPorts atHome atSpot =>
    obtain ⟨⟨role, index, port⟩, atPort, rfl⟩ := List.mem_map.mp inside
    exact .memoryPort atHome atSpot (MemDecl.mem_portPlaces.mp atPort)

/-- Everything that is declared is named in a scope. -/
theorem exists_namingScope (distinct : circuit.Distinct) (all : order.Perm circuit.modules) {entity : Entity}
    (inside : entity ∈ circuit.entities) : ∃ names members, circuit.NamingScope order names members ∧
      entity ∈ members := by
  cases mem_entities.mp inside with
  | circuit => exact ⟨_, _, .circuit, List.mem_singleton_self _⟩
  | @module position module atHome =>
    have placed : ∀ module ∈ order, ∃ entity : Entity, ∃ position, circuit.modules[position]? = some module ∧
        entity = ⟨.module position, .module (circuit.home module)⟩ := by
      intro module isPlaced
      obtain ⟨position, atPosition⟩ := List.getElem?_of_mem (all.mem_iff.mp isPlaced)
      exact ⟨_, position, atPosition, rfl⟩
    obtain ⟨members, each⟩ := exists_forall₂ placed
    have inOrder := all.mem_iff.mpr (List.mem_of_getElem? atHome)
    obtain ⟨found, isMember, other, atOther, rfl⟩ := exists_of_mem_left each inOrder
    have bound := (List.getElem?_eq_some_iff.mp atHome).1
    have same := (List.getElem?_inj bound (List.Nodup.of_map Module.name distinct.modules)).mp
      (atHome.trans atOther.symm)
    exact ⟨_, _, .modules each, same ▸ isMember⟩
  | @declaration position module spot declaration atHome atSpot =>
    exact ⟨_, _, .declarations atHome,
      List.mem_map.mpr ⟨(spot, declaration), RegularModule.mem_spots.mpr atSpot, rfl⟩⟩
  | @memoryPort position module spot decl role index port atHome atSpot atPort =>
    exact ⟨_, _, .memoryPorts atHome atSpot,
      List.mem_map.mpr ⟨(role, index, port), MemDecl.mem_portPlaces.mpr atPort, rfl⟩⟩

end Circuit

namespace Circuit.NamingScope

variable {circuit : Circuit} {order : List Module} {names : List String} {members : List Entity}
  (scope : circuit.NamingScope order names members) (ready : circuit.Ready order)
include scope

/-- The names that a scope has at first are those of its own members, and more for the circuit. -/
theorem own (ordered : circuit.leafToRoot = .ok order) :
    ∀ entity ∈ members, entity.target.terminalName ∈ names := by
  intro entity inside
  cases scope with
  | circuit => exact List.mem_singleton.mp inside ▸ (leafToRoot_spec ordered).2.1
  | modules each =>
    obtain ⟨module, -, position, atHome, rfl⟩ := exists_of_mem_right each inside
    exact List.mem_map_of_mem (List.mem_of_getElem? atHome)
  | @declarations position module atHome =>
    obtain ⟨⟨spot, declaration⟩, atSpot, rfl⟩ := List.mem_map.mp inside
    have declared : declaration ∈ module.declarations :=
      Module.mem_of_declarationAt? (RegularModule.mem_spots.mp atSpot)
    rw [RegularModule.declaredNames_eq, Declaration.terminalName_target]
    exact List.mem_map_of_mem declared
  | @memoryPorts position module spot decl atHome atSpot =>
    obtain ⟨⟨role, index, port⟩, atPort, rfl⟩ := List.mem_map.mp inside
    have isPort := MemDecl.mem_portNames_of_portsIn (MemDecl.mem_portPlaces.mp atPort)
    simpa [Target.terminalName, ReferenceTarget.field] using isPort

include ready in
/-- What is named in a scope gets its names one after the other, beside those that the scope has at first. -/
theorem picked (plan : Plan) (all : order.Perm circuit.modules) :
    members.map (fun entity => plan.naming circuit order entity.target) =
      (plan.pickAll (members.map Entity.target) (.ofNames names)).1 := by
  have placed {position : Nat} {module : Module} (atHome : circuit.modules[position]? = some module) :
      module ∈ order :=
    all.mem_iff.mpr (List.mem_of_getElem? atHome)
  cases scope with
  | circuit =>
    have given := (plan.naming_gives ready).1
    exact congrArg (fun name => [name]) (given.symm.trans (Plan.rename_name .circuit (.start circuit)))
  | modules each =>
    have targets : members.map Entity.target = order.map fun module => .module (circuit.home module) :=
      map_eq_of_forall₂ (each.imp fun module entity ⟨position, _, same⟩ => congrArg Entity.target same)
    have picked := plan.naming_modules ready
    rw [← Function.comp_def, ← List.map_map, targets, List.map_map]
    exact picked
  | @declarations position module atHome =>
    have picked := plan.naming_declarations ready (placed atHome)
    rw [← module.map_spots, List.map_map, List.map_map] at picked
    rw [List.map_map, List.map_map]
    exact picked
  | @memoryPorts position module spot decl atHome atSpot =>
    have declares := RegularModule.mem_mem_declarations.mp (Module.mem_of_declarationAt? atSpot)
    have picked := plan.naming_memoryPorts ready (placed atHome) declares
    rw [← decl.map_portPlaces, List.map_map, List.map_map] at picked
    rw [List.map_map, List.map_map]
    exact picked

end Circuit.NamingScope

/-- What the passes that change the case of names or put a text in front of them call each thing. In each
scope names are given one after the other: the image that the rule wants for a name is given itself where it
is none of the names that the scope had at first or has given out by then, and otherwise with the least number
that makes it none of them. What is skipped, and what the rule wants no image for, keeps its name. So an image
that clashes with no other name is what the name becomes. -/
theorem Pass.run_gives_least_names {spec : RuleSpec} {image : String → Option String}
    (wants : spec.Wants image) {circuit out : Circuit} {ledger result : Ledger} {skips : SkipSet}
    (decoded : circuit.Decoded) (distinct : circuit.Distinct)
    (unskipped : skips.contains (.circuit circuit.main) = false)
    (run : (Pass.ofSpec spec).run circuit ledger skips = .ok (out, result)) :
    ∃ order, circuit.leafToRoot = .ok order ∧
      (∀ entity ∈ circuit.entities, ∃ names members, circuit.NamingScope order names members ∧
        entity ∈ members) ∧
      ∀ names members, circuit.NamingScope order names members →
        (∀ before entity after, members = before ++ entity :: after →
          ∃ given, out.nameAt? entity.place = some given ∧
            skips.Grants image (names ++ before.filterMap (out.nameAt? ·.place)) entity.target given) ∧
        ∀ entity ∈ members, ∀ wanted, skips.contains entity.target = false →
          image entity.target.terminalName = some wanted → wanted ∉ names →
          (∀ other ∈ members, other ≠ entity → out.nameAt? other.place ≠ some wanted) →
          out.nameAt? entity.place = some wanted := by
  obtain ⟨renames, changed, -⟩ := (Pass.run_eq_ok unskipped).mp run
  obtain ⟨order, ordered⟩ := Plan.renameCircuit_order changed
  have ready := decoded.ready distinct.inside ordered
  have all := Circuit.leafToRoot_perm ordered
  have renamed := Plan.renameCircuit_renaming _ ready all ordered changed
  let naming := Plan.naming ⟨spec.rule, skips⟩ circuit order
  refine ⟨order, ordered, fun entity inside => Circuit.exists_namingScope distinct all inside,
    fun names members scope => ?_⟩
  have named : ∀ entity ∈ members, out.nameAt? entity.place = some (naming entity.target) :=
    fun entity inside => renamed.nameAt?_of_mem_entities (scope.declared inside)
  have inTurn : ∀ before entity after, members = before ++ entity :: after →
      skips.Grants image (names ++ before.filterMap (out.nameAt? ·.place)) entity.target
        (naming entity.target) := by
    intro before entity after splits
    -- The names given before are read off the result, where they stand at the places of their entities.
    have early : before.filterMap (out.nameAt? ·.place) = before.map fun other => naming other.target := by
      rw [← List.filterMap_eq_map]
      exact List.filterMap_congr fun other inside => named other (splits ▸ List.mem_append_left _ inside)
    rw [early]
    exact Plan.grants_of_pickAll wants skips (scope.own ordered) (scope.picked ready _ all) splits
  refine ⟨fun before entity after splits =>
    ⟨_, named entity (by simp [splits]), inTurn before entity after splits⟩, ?_⟩
  intro entity inside wanted alsoUnskipped isWanted new apart
  obtain ⟨before, after, splits⟩ := List.append_of_mem inside
  have least := (inTurn before entity after splits).least wanted alsoUnskipped isWanted
  unfold Scope.LeastFree at least
  split at least
  next taken =>
    obtain ⟨other, isBefore, given⟩ := List.mem_filterMap.mp ((List.mem_append.mp taken).resolve_left new)
    by_cases same : other = entity
    · exact same ▸ given
    · exact absurd given (apart other (splits ▸ List.mem_append_left _ isBefore) same)
  next => rw [named entity inside, least]

namespace Circuit.Sample

/-- The number that makes the image of one name free makes it the image of another one. -/
def numbered : Circuit where
  main := "C"
  modules := [.regular ⟨"C", [], [.wire "A" (.uint none), .wire "a" (.uint none), .wire "A_0" (.uint none)]⟩]

theorem numbered_decoded : numbered.Decoded :=
  ⟨Blocked.value "C" [Blocked.moduleValue "C" [] (["A", "a", "A_0"].map fun name =>
    .object [("kind", .string "wire"), ("name", .string name),
      ("type", .object [("kind", .string "uint")])])], by cbv⟩

end Circuit.Sample

open Circuit in
theorem Pass.run_sample_least :
    ∃ out result, (Pass.ofSpec .lowerCase).run Sample.numbered .empty .empty = .ok (out, result) ∧
    Scope.LeastFree (["A", "a", "A_0"] ++ ["a_0", "a"]) "a_0" "a_0_0" ∧
    out.nameAt? (.declaration 0 (.stmt 2)) = some "a_0_0" := by
  have given : ((Pass.ofSpec .lowerCase).run Sample.numbered .empty .empty).toOption.map (fun result =>
      [0, 1, 2].map fun index => result.1.nameAt? (.declaration 0 (.stmt index))) =
        some [some "a_0", some "a", some "a_0_0"] := by decide +kernel
  obtain ⟨⟨out, result⟩, ran, named⟩ := Option.map_eq_some_iff.mp given
  have run := toOption_eq_some.mp ran
  obtain ⟨first, second, third⟩ : out.nameAt? (.declaration 0 (.stmt 0)) = some "a_0" ∧
      out.nameAt? (.declaration 0 (.stmt 1)) = some "a" ∧
        out.nameAt? (.declaration 0 (.stmt 2)) = some "a_0_0" := by
    simpa using named
  obtain ⟨order, -, -, each⟩ :=
    Pass.run_gives_least_names .lowerCase Sample.numbered_decoded (by decide) rfl run
  obtain ⟨inTurn, -⟩ := each _ _ (@NamingScope.declarations Sample.numbered order 0 _ rfl)
  obtain ⟨name, atPlace, grants⟩ := inTurn [_, _] _ [] rfl
  obtain rfl := Option.some.inj (third.symm.trans atPlace)
  have least := grants.least "a_0" rfl (by decide +kernel)
  simp only [List.filterMap_cons, List.filterMap_nil, first, second] at least
  exact ⟨out, result, run, least, third⟩

end CircuitNames
