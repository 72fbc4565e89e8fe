import CircuitNames.Proofs.AgreeingSweeps

namespace CircuitNames

namespace Plan

/-- Two plans skip the same among some targets. -/
def SkipAlike (plan other : Plan) (targets : List Target) : Prop :=
  ∀ target ∈ targets, plan.skips.contains target = other.skips.contains target

variable {plan other : Plan} (rule : plan.rule = other.rule) {home : ModuleTarget}
include rule

theorem declare_congr {target : Target} (same : plan.skips.contains target = other.skips.contains target)
    (key : ScopeKey) : plan.declare key target = other.declare key target := by
  funext sweep
  simp only [declare, rename, rule, same]

theorem declareLocal_congr {name : String}
    (same : plan.SkipAlike other ((Declaration.signal name).targets home)) :
    plan.declareLocal home name = other.declareLocal home name :=
  declare_congr rule (same _ List.mem_cons_self) _

theorem declareInstance_congr {name module : String}
    (same : plan.SkipAlike other ((Declaration.inst name module).targets home)) :
    plan.declareInstance home name module = other.declareInstance home name module := by
  have declares := declare_congr rule (same (.inst (home.inst name module)) List.mem_cons_self)
  simp only [declareInstance, declares]

theorem declareMemory_congr {decl : MemDecl}
    (same : plan.SkipAlike other ((Declaration.mem decl).targets home)) :
    plan.declareMemory home decl = other.declareMemory home decl := by
  have own : plan.declareLocal home decl.name = other.declareLocal home decl.name :=
    declare_congr rule (same _ List.mem_cons_self) _
  have ports (items : List String) (within : ∀ name ∈ items, name ∈ decl.portNames) :
      (items.mapM fun name => plan.declare (.inside (home.reference decl.name).text)
        (.reference ((home.reference decl.name).field name))) =
      items.mapM fun name => other.declare (.inside (home.reference decl.name).text)
        (.reference ((home.reference decl.name).field name)) := by
    refine mapM_congr fun name inside => declare_congr rule (same _ (List.mem_cons_of_mem _ ?_)) _
    exact Declaration.mem_portTargets.mpr ⟨decl, name, rfl, within name inside, rfl⟩
  have readers := ports decl.readers (by simp +contextual [MemDecl.portNames])
  have writers := ports decl.writers (by simp +contextual [MemDecl.portNames])
  have both := ports decl.readwriters (by simp +contextual [MemDecl.portNames])
  simp only [declareMemory, own, readers, writers, both]

omit rule

mutual

theorem declareStmt_congr (rule : plan.rule = other.rule) : ∀ stmt : Stmt,
    plan.SkipAlike other ((stmt.walk.filterMap Stmt.declaration?).flatMap (Declaration.targets home)) →
    plan.declareStmt home stmt = other.declareStmt home stmt
  | .wire name type, same | .reg name type clock reset, same | .node name value, same => by
    have own : plan.declareLocal home name = other.declareLocal home name :=
      declareLocal_congr rule fun target inside => same target (List.mem_append_left _ inside)
    simp only [declareStmt, own]
  | .inst name module, same => by
    simpa only [declareStmt] using declareInstance_congr rule fun target inside =>
      same target (List.mem_append_left _ inside)
  | .mem decl, same => by
    simpa only [declareStmt] using declareMemory_congr rule fun target inside =>
      same target (List.mem_append_left _ inside)
  | .when cond body otherwise, same => by
    have parts : (Stmt.when cond body otherwise).walk.filterMap Stmt.declaration? =
        (Stmt.walkAll body).filterMap Stmt.declaration? ++
          (Stmt.walkAll otherwise).filterMap Stmt.declaration? := by
      rw [Stmt.walk, List.filterMap_cons_none rfl, List.filterMap_append]
    rw [parts, List.flatMap_append] at same
    obtain ⟨inBody, inOtherwise⟩ := List.forall_mem_append.mp same
    simp only [declareStmt, declareStmts_congr rule body inBody,
      declareStmts_congr rule otherwise inOtherwise]
  | .block body, same => by
    have inBody := declareStmts_congr rule body same
    simp only [declareStmt, inBody]
  | .connect .., _ | .invalidate .., _ | .stop .., _ | .print .., _ | .skip, _ => by simp only [declareStmt]

theorem declareStmts_congr (rule : plan.rule = other.rule) : ∀ stmts : List Stmt,
    plan.SkipAlike other
      (((Stmt.walkAll stmts).filterMap Stmt.declaration?).flatMap (Declaration.targets home)) →
    plan.declareStmts home stmts = other.declareStmts home stmts
  | [], _ => rfl
  | stmt :: rest, same => by
    rw [Stmt.walkAll, List.filterMap_append, List.flatMap_append] at same
    obtain ⟨inFirst, inRest⟩ := List.forall_mem_append.mp same
    simp only [declareStmts, declareStmt_congr rule stmt inFirst, declareStmts_congr rule rest inRest]

end

include rule

/-- Plans that skip the same of what a module declares do the same with it. -/
theorem declareModule_congr {main : String} {module : Module}
    (same : plan.SkipAlike other (module.targets main)) :
    plan.declareModule main module = other.declareModule main module := by
  cases module with
  | external module =>
    have own := declare_congr rule (same _ List.mem_cons_self)
    simp only [declareModule, own]
  | regular module =>
    obtain ⟨own, inside⟩ := List.forall_mem_cons.mp same
    rw [RegularModule.declarations, List.flatMap_append] at inside
    obtain ⟨ofPorts, ofBody⟩ := List.forall_mem_append.mp inside
    have name := declare_congr rule own
    have body := declareStmts_congr rule module.body ofBody
    have ports : (module.ports.mapM fun port => do
          return { port with name := ← plan.declareLocal ⟨main, module.name⟩ port.name } :
            Sweeping (List Port)) =
        module.ports.mapM fun port => do
          return { port with name := ← other.declareLocal ⟨main, module.name⟩ port.name } := by
      refine mapM_congr fun port isPort => ?_
      rw [declareLocal_congr rule fun target inside => ofPorts target ?_]
      exact List.mem_flatMap.mpr ⟨_, List.mem_map_of_mem isPort, inside⟩
    simp only [declareModule, name, ports, body]

theorem renameModules_congr {main : String} {modules : List Module}
    (same : plan.SkipAlike other (modules.flatMap (Module.targets main))) (renamed : List (String × Module))
    (sweep : Sweep) :
    plan.renameModules main modules renamed sweep = other.renameModules main modules renamed sweep := by
  induction modules generalizing renamed sweep with
  | nil => rfl
  | cons module rest ih =>
    obtain ⟨first, later⟩ := List.forall_mem_append.mp same
    simp only [renameModules, renameModule, declareModule_congr rule first, ih later]

/-- And plans that skip the same of what a circuit declares do the same with the circuit. -/
theorem renameCircuit_congr {circuit : Circuit}
    (same : plan.SkipAlike other (circuit.entities.map Entity.target)) :
    plan.renameCircuit Circuit.leafToRoot circuit = other.renameCircuit Circuit.leafToRoot circuit := by
  rw [Circuit.map_entities] at same
  obtain ⟨main, modules⟩ := List.forall_mem_cons.mp same
  have first := congrFun (declare_congr rule main .circuit) (.start circuit)
  have started := Except.ok.inj first
  simp only [renameCircuit, started]
  cases ordered : circuit.leafToRoot with
  | error fault => rfl
  | ok order =>
    have within : plan.SkipAlike other (order.flatMap (Module.targets circuit.main)) := fun target inside =>
      modules target (((Circuit.leafToRoot_perm ordered).flatMap_right _).mem_iff.mp inside)
    simp only [bind, Except.bind, renameModules_congr rule within]

end Plan

/-- What stands in a module, what stands in the module of an instance, and the ports of a memory. -/
def Target.Holds (outer inner : Target) : Prop :=
  match outer with
  | .circuit _ => False
  | .module home => inner.moduleName? = some home.module ∧ inner ≠ .module home
  | .inst target => inner.moduleName? = some target.ofModule ∧ inner ≠ .module target.callee
  | .reference memory => ∃ port, inner = .reference (memory.field port)

/-- What it comes to that a pass skips one more target. -/
structure Circuit.SkipEffect (circuit : Circuit) (extra : Target) (first second : Circuit × Ledger) :
    Prop where
  skipped : ∀ entity ∈ circuit.entities, entity.target.text = extra.text →
    second.1.nameAt? entity.place = circuit.nameAt? entity.place
  apart : ∀ entity ∈ circuit.entities,
    (∀ hidden ∈ circuit.entities, hidden.target.text = extra.text →
      entity.target.scope ≠ hidden.target.scope) →
      second.1.nameAt? entity.place = first.1.nameAt? entity.place
  nested : ∀ hidden ∈ circuit.entities, hidden.target.text = extra.text → ∀ entity ∈ circuit.entities,
    hidden.target.Holds entity.target → second.1.nameAt? entity.place = first.1.nameAt? entity.place
  undeclared : (∀ entity ∈ circuit.entities, entity.target.text ≠ extra.text) → second = first

/-- Whether a composition succeeds does not depend on what the ledger is composed with. -/
theorem Ledger.compose_ends (ledger next other : Ledger) :
    Alongside (fun _ _ => True) (ledger.compose next) (ledger.compose other) := by
  have chase (replacement : Target) : Alongside (fun _ _ => True) (ledger.chase next replacement)
      (ledger.chase other replacement) := by
    refine (Alongside.refl (R := fun _ _ => True) (fun _ => trivial) (ledger.follow false replacement)).bind
      fun one two _ => ?_
    cases next.get? one <;> cases other.get? two <;> exact .ok trivial
  have each (entry : Entry) : Alongside (fun _ _ => True) (ledger.chaseEntry next entry)
      (ledger.chaseEntry other entry) :=
    (Alongside.mapM (R := fun _ _ _ => True) fun replacement _ => chase replacement).bind fun _ _ _ =>
      .ok trivial
  exact (Alongside.mapM (R := fun _ _ _ => True) fun entry _ => each entry).bind fun _ _ _ => .ok trivial

namespace Circuit

variable {circuit : Circuit}

theorem Identified.entity (identified : circuit.Identified) {entity : Entity}
    (inside : entity ∈ circuit.entities) :
    entity.target.Identified := by
  obtain ⟨address, atPlace, same⟩ := addressed_of_mem_entities inside
  exact same ▸ identified.addressAt? atPlace

/-- In a circuit that has an order no module instantiates itself. -/
theorem ne_of_instance {order : List Module} (ordered : circuit.leafToRoot = .ok order) {module : Module}
    (member : module ∈ circuit.modules) {edge : InstanceEdge} (isInstance : edge ∈ module.instances) :
    edge.module ≠ module.name := by
  obtain ⟨-, -, whole, all⟩ := leafToRoot_spec ordered
  obtain ⟨before, after, splits⟩ := List.append_of_mem (all module member)
  have earlier := whole.callee_before splits edge isInstance
  have distinct := whole.nodup
  rw [splits, List.map_append, List.map_cons, List.nodup_append'] at distinct
  exact fun same => distinct.2.2 earlier (same ▸ List.mem_cons_self)

theorem Identified.home (identified : circuit.Identified) {position : Nat} {module : Module}
    (atHome : circuit.modules[position]? = some module) : (Target.module (circuit.home module)).Identified :=
  identified.entity (mem_entities.mpr (.module atHome))

/-- A memory's port never shares a scope with what is declared in a module. -/
theorem scope_field_ne {home : ModuleTarget} {name port : String} :
    (Target.reference ((home.reference name).field port)).scope ≠
      (Target.reference (home.reference name)).scope := by
  intro same
  have lengths := congrArg List.length (String.ofList_injective (ScopeKey.inside.inj same))
  simp [ReferenceTarget.chars, ModuleTarget.reference, ReferenceTarget.field] at lengths

/-- What stands in another module is not in the scope of this one. -/
theorem scope_ne_home (identified : circuit.Identified) {position : Nat} {module : Module}
    (atHome : circuit.modules[position]? = some module) {entity : Entity} (declares : circuit.Declares entity)
    {name : String} (within : entity.target.moduleName? = some name)
    (notSelf : entity.target ≠ .module ⟨circuit.main, name⟩) (apart : name ≠ module.name) :
    entity.target.scope ≠ .inside (Target.module (circuit.home module)).text := by
  cases declares with
  | circuit => cases within
  | module _ => exact absurd (congrArg (Target.module ⟨circuit.main, ·⟩) (Option.some.inj within)) notSelf
  | @declaration _ other _ declaration atOther _ =>
    intro same
    have texts : (Target.module (circuit.home (.regular other))).text =
        (Target.module (circuit.home module)).text := by
      cases declaration <;> exact ScopeKey.inside.inj same
    have homes := Target.eq_of_text_eq (identified.home atOther) (identified.home atHome) texts
    have named : some other.name = some name := by cases declaration <;> exact within
    exact apart ((Option.some.inj named).symm.trans (congrArg ModuleTarget.module (Target.module.inj homes)))
  | memoryPort atOther atSpot _ =>
    intro same
    have memory := identified.entity (mem_entities.mpr (.declaration atOther atSpot))
    cases Target.eq_of_text_eq memory (identified.home atHome) (ScopeKey.inside.inj same)

/-- The names of what a module or a memory holds are not given in the scope of its own name. -/
theorem scope_ne_of_holds (identified : circuit.Identified) {order : List Module}
    (ordered : circuit.leafToRoot = .ok order) {hidden entity : Entity} (hides : circuit.Declares hidden)
    (declares : circuit.Declares entity) (holds : hidden.target.Holds entity.target) :
    entity.target.scope ≠ hidden.target.scope := by
  cases hides with
  | circuit => exact holds.elim
  | module _ =>
    obtain ⟨within, notSelf⟩ := holds
    cases declares with
    | circuit => cases within
    | module _ => exact absurd (congrArg (Target.module ⟨circuit.main, ·⟩) (Option.some.inj within)) notSelf
    | @declaration _ _ _ declaration _ _ => cases declaration <;> exact nofun
    | memoryPort _ _ _ => exact nofun
  | @declaration position module spot declaration atHome atSpot =>
    cases declaration with
    | signal name =>
      obtain ⟨port, same⟩ := holds
      exact same ▸ scope_field_ne
    | mem decl =>
      obtain ⟨port, same⟩ := holds
      exact same ▸ scope_field_ne
    | inst name callee =>
      obtain ⟨within, notSelf⟩ := holds
      have isInstance : ⟨name, callee⟩ ∈ (Module.regular module).instances :=
        Module.inst_mem_declarations.mp (Module.mem_of_declarationAt? atSpot)
      have apart := ne_of_instance ordered (List.mem_of_getElem? atHome) isInstance
      exact scope_ne_home identified atHome declares within notSelf apart
  | memoryPort _ _ _ =>
    -- a port of a memory holds nothing: a target has one field at most
    obtain ⟨port, same⟩ := holds
    cases declares with
    | circuit => cases same
    | module _ => cases same
    | @declaration _ _ _ declaration _ _ =>
      cases declaration <;> simp [Declaration.target, ModuleTarget.reference, ReferenceTarget.field] at same
    | memoryPort _ _ _ => simp [ModuleTarget.reference, ReferenceTarget.field] at same

end Circuit

/-- A circuit target is the only one with its text. -/
theorem Target.eq_circuit_of_text {target : Target} {name : String} (identifier : isIdentifier name = true)
    (same : target.text = (Target.circuit name).text) : target = .circuit name := by
  have chars : target.chars = '~' :: name.toList := String.ofList_injective same
  have clean : '|' ∉ name.toList := not_mem_of_isIdentifier identifier (by decide)
  have inside : target.chars.contains '|' = false := by simp [chars, clean]
  cases target with
  | circuit other => exact congrArg Target.circuit (String.toList_injective (List.cons.inj chars).2)
  | module home => simp [Target.chars, ModuleTarget.chars] at inside
  | inst target => simp [Target.chars, InstanceTarget.chars, ModuleTarget.chars] at inside
  | reference target => simp [Target.chars, ReferenceTarget.chars, ModuleTarget.chars] at inside

namespace SkipSet

variable {skips : SkipSet} {extra target : Target}

theorem contains_cons :
    contains ⟨extra :: skips.targets⟩ target = (extra.text == target.text || skips.contains target) := rfl

theorem contains_cons_of_ne (apart : extra.text ≠ target.text) :
    contains ⟨extra :: skips.targets⟩ target = skips.contains target := by
  rw [contains_cons, beq_false_of_ne apart, Bool.false_or]

end SkipSet

namespace Circuit

variable {circuit : Circuit} {rule : Rule} {skips : SkipSet} {extra : Target}

/-- A scope in which nothing is declared that has the text of a target. -/
def ApartFrom (circuit : Circuit) (extra : Target) (key : ScopeKey) : Prop :=
  ∀ hidden ∈ circuit.entities, hidden.target.text = extra.text → key ≠ hidden.target.scope

/-- Plans that differ in a target which is declared agree on every scope but that of the target. -/
theorem Identified.parallel_cons (identified : circuit.Identified) {hidden : Entity}
    (inside : hidden ∈ circuit.entities) (same : hidden.target.text = extra.text) :
    Plan.Parallel (circuit.ApartFrom extra) ⟨rule, skips⟩ ⟨rule, ⟨extra :: skips.targets⟩⟩ := by
  refine ⟨rfl, fun target names isKept => (SkipSet.contains_cons_of_ne fun text => ?_).symm⟩
  obtain rfl := Target.eq_of_text_eq (identified.entity inside) names (same.trans text)
  exact isKept hidden inside same rfl

/-- One more skipped target that is declared: the sweeps are in lockstep outside of its scope. -/
theorem Identified.skipEffect_declared (identified : circuit.Identified) {hidden : Entity}
    (inside : hidden ∈ circuit.entities) (same : hidden.target.text = extra.text) :
    Alongside (circuit.SkipEffect extra) (Plan.renameCircuit ⟨rule, skips⟩ leafToRoot circuit)
      (Plan.renameCircuit ⟨rule, ⟨extra :: skips.targets⟩⟩ leafToRoot circuit) := by
  have parallel : Plan.Parallel (circuit.ApartFrom extra) ⟨rule, skips⟩ ⟨rule, ⟨extra :: skips.targets⟩⟩ :=
    identified.parallel_cons inside same
  have start : Sweep.Agree (circuit.ApartFrom extra) (.start circuit) (.start circuit) :=
    ⟨fun _ _ => rfl, rfl, List.forall_mem_nil _, List.forall_mem_nil _, List.forall_mem_nil _⟩
  refine (parallel.lockstep.renameCircuit identified.main identified.modules start).imp_ok ?_
  rintro ⟨first, _⟩ ⟨second, _⟩ ran - ⟨-, became⟩
  obtain ⟨order, ordered⟩ := Plan.renameCircuit_order ran
  have outside : ∀ entity ∈ circuit.entities, circuit.ApartFrom extra entity.target.scope →
      second.nameAt? entity.place = first.nameAt? entity.place := by
    intro entity inside isKept
    obtain ⟨one, two, atFirst, atSecond, same, -⟩ := became.nameAt? inside
    rw [atFirst, atSecond, same isKept]
  refine ⟨fun entity inside same => ?_, outside, fun hidden hides same entity inside holds => ?_,
    fun none => absurd same (none hidden inside)⟩
  · obtain ⟨one, two, -, atSecond, -, keeps⟩ := became.nameAt? inside
    have skipped : SkipSet.contains ⟨extra :: skips.targets⟩ entity.target = true := by
      rw [SkipSet.contains_cons, same, beq_self_eq_true, Bool.true_or]
    rw [atSecond, keeps skipped, nameAt?_of_mem_entities inside]
  · -- What the target holds is in scopes of its own, whichever declaration of this text is meant.
    refine outside entity inside fun other otherHides otherSame => ?_
    have texts := otherSame.trans same.symm
    rw [Target.eq_of_text_eq (identified.entity otherHides) (identified.entity hides) texts]
    exact scope_ne_of_holds identified ordered (mem_entities.mp hides) (mem_entities.mp inside) holds

/-- One more skipped target that is not declared: nothing asks for it. -/
theorem skipEffect_undeclared (undeclared : ∀ entity ∈ circuit.entities, entity.target.text ≠ extra.text) :
    Alongside (circuit.SkipEffect extra) (Plan.renameCircuit ⟨rule, skips⟩ leafToRoot circuit)
      (Plan.renameCircuit ⟨rule, ⟨extra :: skips.targets⟩⟩ leafToRoot circuit) := by
  have alike : Plan.SkipAlike ⟨rule, skips⟩ ⟨rule, ⟨extra :: skips.targets⟩⟩
      (circuit.entities.map Entity.target) := by
    intro target inside
    obtain ⟨entity, member, rfl⟩ := List.mem_map.mp inside
    exact (SkipSet.contains_cons_of_ne (undeclared entity member).symm).symm
  have same : (Plan.mk rule skips).rule = (Plan.mk rule ⟨extra :: skips.targets⟩).rule := rfl
  rw [Plan.renameCircuit_congr same alike]
  refine Alongside.refl (fun result => ⟨fun entity inside text => ?_, fun _ _ _ => rfl,
    fun _ _ _ _ _ _ => rfl, fun _ => rfl⟩) _
  exact absurd text (undeclared entity inside)

/-- Composing the renames into a ledger changes nothing about the effect on the circuit. -/
theorem SkipEffect.compose {first second : Circuit × Ledger} (effect : circuit.SkipEffect extra first second)
    (ledger : Ledger) :
    Alongside (circuit.SkipEffect extra) (do return (first.1, ← ledger.compose first.2))
      (do return (second.1, ← ledger.compose second.2)) := by
  by_cases undeclared : ∀ entity ∈ circuit.entities, entity.target.text ≠ extra.text
  · obtain rfl := effect.undeclared undeclared
    exact (Alongside.refl (fun _ => rfl) _).bind fun one _ same => .ok (same ▸
      ⟨effect.skipped, fun _ _ _ => rfl, fun _ _ _ _ _ _ => rfl, fun _ => rfl⟩)
  · exact (ledger.compose_ends first.2 second.2).bind fun one two _ => .ok
      ⟨effect.skipped, effect.apart, effect.nested, fun none => absurd none undeclared⟩

end Circuit

/-- To skip one more target, not the circuit, leaves the way a pass ends as it is. What that target addresses
keeps its name, and everything outside of its scope gets the name it got; all is the same when nothing
declared has this target. The ports and declarations of a module and the ports of a memory are not in the
scope of the module, its instances or the memory. -/
theorem Pass.run_skips_apart {spec : RuleSpec} {circuit : Circuit} {ledger : Ledger} {skips : SkipSet}
    {extra : Target} (decoded : circuit.Decoded) (unskipped : skips.contains (.circuit circuit.main) = false)
    (other : extra ≠ .circuit circuit.main) :
    Alongside (circuit.SkipEffect extra) ((Pass.ofSpec spec).run circuit ledger skips)
      ((Pass.ofSpec spec).run circuit ledger ⟨extra :: skips.targets⟩) := by
  have identified := decoded.identified
  have alsoUnskipped : SkipSet.contains ⟨extra :: skips.targets⟩ (.circuit circuit.main) = false := by
    have apart : extra.text ≠ (Target.circuit circuit.main).text := fun same =>
      other (Target.eq_circuit_of_text identified.main same)
    rw [SkipSet.contains_cons_of_ne apart, unskipped]
  rw [run, run, if_neg (by simp [leavesAlone, unskipped]), if_neg (by simp [leavesAlone, alsoUnskipped])]
  refine Alongside.bind (R := circuit.SkipEffect extra) ?_ fun first second effect => effect.compose ledger
  by_cases declared : ∃ hidden ∈ circuit.entities, hidden.target.text = extra.text
  · obtain ⟨hidden, inside, same⟩ := declared
    exact identified.skipEffect_declared inside same
  · exact Circuit.skipEffect_undeclared fun entity inside same => declared ⟨entity, inside, same⟩

open Circuit in
theorem Pass.run_sample_skips_apart :
    let sub : Target := .module ⟨"Top", "Sub"⟩
    ∃ first second, (Pass.ofSpec (.prepend "p_")).run Sample.circuit .empty .empty = .ok first ∧
      (Pass.ofSpec (.prepend "p_")).run Sample.circuit .empty ⟨[sub]⟩ = .ok second ∧
      second.1.nameAt? (.module 1) = some "Sub" ∧
      second.1.nameAt? (.declaration 1 (.port 0)) = first.1.nameAt? (.declaration 1 (.port 0)) := by
  intro sub
  have runs : ((Pass.ofSpec (.prepend "p_")).run Sample.circuit .empty .empty).toOption.isSome =
    true := by decide +kernel
  obtain ⟨first, ran⟩ := Option.isSome_iff_exists.mp runs
  have run := toOption_eq_some.mp ran
  have along : Alongside (Sample.circuit.SkipEffect sub)
      ((Pass.ofSpec (.prepend "p_")).run Sample.circuit .empty .empty)
      ((Pass.ofSpec (.prepend "p_")).run Sample.circuit .empty ⟨[sub]⟩) :=
    Pass.run_skips_apart Sample.decoded rfl (by decide)
  rw [run] at along
  generalize (Pass.ofSpec (.prepend "p_")).run Sample.circuit .empty ⟨[sub]⟩ = other at along
  cases along with
  | @ok _ second effect =>
    have hides : ⟨.module 1, sub⟩ ∈ Sample.circuit.entities := by decide +kernel
    have inside : ⟨.declaration 1 (.port 0), .reference ((ModuleTarget.mk "Top" "Sub").reference "A")⟩ ∈
        Sample.circuit.entities := by decide +kernel
    exact ⟨first, second, run, rfl, effect.skipped _ hides rfl,
      effect.nested _ hides rfl _ inside ⟨rfl, nofun⟩⟩

namespace Circuit.Namesakes

def memory (readers : List String) : MemDecl :=
  ⟨"m", .uint none, .zero, .zero, .zero, readers, [], [], .undefined⟩

def memoryValue (readers : List String) : Json := .object [("kind", .string "mem"), ("name", .string "m"),
  ("dataType", .object [("kind", .string "uint")]), ("depth", .number .zero), ("readLatency", .number .zero),
  ("writeLatency", .number .zero), ("readers", .array (readers.map .string))]

theorem memory_read (label : String) {readers : List String}
    (names : ∀ label, Decode.names label (some (.array (readers.map .string))) = .ok readers) :
    Decode.stmt label (some (memoryValue readers)) = .ok (.mem (memory readers)) := by
  have counted (label : String) : Json.asCount label (some (.number .zero)) = .ok .zero := by
    simp [Json.asCount, Number.isCount, Number.zero]
  have named (label : String) : Json.asName label (some (.string "m")) = .ok "m" := by cbv
  have typed (label : String) :
      Decode.groundType label (some (.object [("kind", .string "uint")])) = .ok (.uint none) := by cbv
  rw [memoryValue, Decode.stmt]
  refine bind_eq_ok.mpr ⟨"mem", by cbv, bind_eq_ok.mpr ⟨memory readers, ?_, rfl⟩⟩
  refine bind_eq_ok.mpr ⟨(), by cbv, bind_eq_ok.mpr ⟨_, named _, bind_eq_ok.mpr ⟨_, typed _, ?_⟩⟩⟩
  refine bind_eq_ok.mpr ⟨_, counted _, bind_eq_ok.mpr ⟨_, counted _, bind_eq_ok.mpr ⟨_, counted _, ?_⟩⟩⟩
  exact bind_eq_ok.mpr ⟨_, names _, rfl⟩

/-- Two memories under one name in one module. -/
def circuit : Circuit where
  main := "C"
  modules := [.regular ⟨"C", [], [.mem (memory ["a", "p_a"]), .mem (memory ["a_0"])]⟩]

theorem decoded : circuit.Decoded := by
  have first (label : String) : Decode.stmt label (some (memoryValue ["a", "p_a"])) =
      .ok (.mem (memory ["a", "p_a"])) :=
    memory_read label fun _ => by cbv
  have second (label : String) : Decode.stmt label (some (memoryValue ["a_0"])) =
      .ok (.mem (memory ["a_0"])) :=
    memory_read label fun _ => by cbv
  let module : Json := .object [("kind", .string "module"), ("name", .string "C"), ("ports", .array []),
    ("body", .array [memoryValue ["a", "p_a"], memoryValue ["a_0"]])]
  have body (label : String) :
      Decode.stmts label (some (.array [memoryValue ["a", "p_a"], memoryValue ["a_0"]])) =
      .ok [.mem (memory ["a", "p_a"]), .mem (memory ["a_0"])] := by
    simp only [Decode.stmts, Decode.stmtItems, first, second]
    rfl
  have moduleRead (label : String) : Decode.module label (some module) =
      .ok (.regular ⟨"C", [], [.mem (memory ["a", "p_a"]), .mem (memory ["a_0"])]⟩) := by
    rw [Decode.module]
    refine bind_eq_ok.mpr ⟨_, rfl, bind_eq_ok.mpr ⟨"module", by cbv, bind_eq_ok.mpr ⟨"C", by cbv, ?_⟩⟩⟩
    exact bind_eq_ok.mpr ⟨_, rfl, bind_eq_ok.mpr ⟨(), by cbv, bind_eq_ok.mpr ⟨_, body _, rfl⟩⟩⟩
  have modules (label : String) : Json.asList Decode.module label (some (.array [module])) =
      .ok circuit.modules := by
    simp only [Json.asList, Json.eachItem, moduleRead]
    rfl
  refine ⟨.object [("main", .string "C"), ("modules", .array [module])],
    bind_eq_ok.mpr ⟨⟨"circuit", _⟩, rfl, bind_eq_ok.mpr ⟨(), rfl, bind_eq_ok.mpr ⟨"C", by cbv, ?_⟩⟩⟩⟩
  exact bind_eq_ok.mpr ⟨circuit.modules, modules _, rfl⟩

/-- The first port of the first memory. -/
def port : Target := .reference ((ModuleTarget.mk "C" "C").reference "m" |>.field "a")

end Circuit.Namesakes

open Circuit in
/-- To skip a port of one memory can give a port of another memory another name, where both memories are
declared under one name in one module. -/
theorem Pass.run_skip_reaches_namesake :
    Namesakes.circuit.Decoded ∧ SkipSet.parse ["~C|C>m.a"] = .ok ⟨[Namesakes.port]⟩ ∧
      (∀ entity ∈ Namesakes.circuit.entities, entity.target.text = Namesakes.port.text →
        entity.place = .memoryPort 0 (.stmt 0) .reader 0) ∧
      ∃ first second, (Pass.ofSpec (.prepend "p_")).run Namesakes.circuit .empty .empty = .ok first ∧
        (Pass.ofSpec (.prepend "p_")).run Namesakes.circuit .empty ⟨[Namesakes.port]⟩ = .ok second ∧
        first.1.nameAt? (.memoryPort 0 (.stmt 1) .reader 0) = some "p_a_0_0" ∧
        second.1.nameAt? (.memoryPort 0 (.stmt 1) .reader 0) = some "p_a_0" := by
  refine ⟨Namesakes.decoded, by decide +kernel, by decide +kernel, ?_⟩
  have run (skips : SkipSet) (name : String)
      (view : ((Pass.ofSpec (.prepend "p_")).run Namesakes.circuit .empty skips).toOption.map (fun result =>
        result.1.nameAt? (.memoryPort 0 (.stmt 1) .reader 0)) = some (some name)) :
      ∃ result, (Pass.ofSpec (.prepend "p_")).run Namesakes.circuit .empty skips = .ok result ∧
        result.1.nameAt? (.memoryPort 0 (.stmt 1) .reader 0) = some name := by
    obtain ⟨result, ran, named⟩ := Option.map_eq_some_iff.mp view
    exact ⟨result, toOption_eq_some.mp ran, named⟩
  obtain ⟨first, ranFirst, named⟩ := run .empty "p_a_0_0" (by decide +kernel)
  obtain ⟨second, ranSecond, alsoNamed⟩ := run ⟨[Namesakes.port]⟩ "p_a_0" (by decide +kernel)
  exact ⟨first, second, ranFirst, ranSecond, named, alsoNamed⟩

end CircuitNames
