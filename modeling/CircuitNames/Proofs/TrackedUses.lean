import CircuitNames.Proofs.HierarchicalTargets
import CircuitNames.Proofs.PassResults
import CircuitNames.Proofs.References

namespace CircuitNames

/-- The reference that a use spells in a module: a name, a field of it, or a field below that one. -/
def Expr.reference? (home : ModuleTarget) : Expr → Option ReferenceTarget
  | ref root => some (home.reference root)
  | subfield (ref root) field => some ((home.reference root).field field)
  | subfield (subfield (ref root) port) signal => some (((home.reference root).field port).field signal)
  | _ => none

theorem Expr.reference?_eq_some {home : ModuleTarget} {use : Expr} {spelled : ReferenceTarget}
    (spells : use.reference? home = some spelled) :
    (use = .ref spelled.ref ∧ spelled = home.reference spelled.ref) ∨
      (∃ field, use = .subfield (.ref spelled.ref) field ∧
        spelled = (home.reference spelled.ref).field field) ∨
      ∃ port signal, use = .subfield (.subfield (.ref spelled.ref) port) signal ∧
        spelled = ((home.reference spelled.ref).field port).field signal := by
  unfold reference? at spells
  split at spells
  · obtain rfl := Option.some.inj spells
    exact Or.inl ⟨rfl, rfl⟩
  · obtain rfl := Option.some.inj spells
    exact Or.inr (Or.inl ⟨_, rfl, rfl⟩)
  · obtain rfl := Option.some.inj spells
    exact Or.inr (Or.inr ⟨_, _, rfl, rfl⟩)
  · cases spells

theorem Expr.names_of_reference? {home : ModuleTarget} {use : Expr} {spelled : ReferenceTarget}
    (spells : use.reference? home = some spelled) :
    ∀ name ∈ (Target.reference spelled).names, name = home.circuit ∨ name = home.module ∨
      name ∈ use.names := by
  unfold reference? at spells
  split at spells
  case h_4 => cases spells
  all_goals
    obtain rfl := Option.some.inj spells
    simp [Target.names, ModuleTarget.reference, ReferenceTarget.field, names]

/-- The module that a declaration instantiates. -/
def Declaration.callee? : Declaration → Option String
  | inst _ callee => some callee
  | _ => none

namespace Plan

variable {circuit : Circuit} {order : List Module} (plan : Plan) (ready : circuit.Ready order)
  {module : RegularModule} (member : .regular module ∈ order)
include ready member

/-- What is written for a use of anything but an instance is the reference that it spells, renamed. -/
theorem written_of_declared {declaration : Declaration} (declared : declaration ∈ module.declarations)
    (own : declaration.callee? = none) {use use' : Expr} (names : use.Identified) {spelled : ReferenceTarget}
    (spells : use.reference? ⟨circuit.main, module.name⟩ = some spelled)
    (named : spelled.ref = declaration.name)
    (followed : (plan.sweep circuit order).useExpr ⟨circuit.main, module.name⟩ use = .ok use') :
    ∃ written,
      use'.reference? ((ModuleTarget.mk circuit.main module.name).renamed (plan.naming circuit order)) =
        some written ∧
        (Target.reference spelled).renamed (plan.naming circuit order) = .reference written := by
  have nameOk := name_identified ready member declared
  have bound := plan.sweep_find?_declared ready member declared nameOk
  -- A use has no field, one or two. With fields only a memory is followed, as no instance is meant here.
  obtain ⟨rfl, same⟩ | ⟨field, rfl, same⟩ | ⟨port, signal, rfl, same⟩ := Expr.reference?_eq_some spells
  · rw [named] at followed same
    have gave := plan.useExpr_declared ready member declared
    obtain rfl := Except.ok.inj (gave.symm.trans followed)
    refine ⟨_, rfl, ?_⟩
    rw [same]
    cases declaration with
    | inst root callee => cases own
    | signal root => rfl
    | mem decl => rfl
  · rw [named] at followed same
    cases declaration with
    | inst root callee => cases own
    | signal root =>
      cases (Sweep.useField_unbound bound).symm.trans followed
    | mem decl =>
      have fieldOk : isIdentifier field = true := names field (by simp [Expr.names])
      have gave := plan.useField_memoryPort ready member declared fieldOk
      obtain rfl := Except.ok.inj (gave.symm.trans followed)
      refine ⟨_, rfl, ?_⟩
      rw [same]
      rfl
  · rw [named] at followed same
    cases declaration with
    | inst root callee => cases own
    | signal root =>
      cases (Sweep.useSignal_unbound bound).symm.trans followed
    | mem decl =>
      have portOk : isIdentifier port = true := names port (by simp [Expr.names])
      have gave := plan.useField_memorySignal ready member declared portOk signal
      obtain rfl := Except.ok.inj (gave.symm.trans followed)
      refine ⟨_, rfl, ?_⟩
      rw [same]
      rfl

/-- What is written for a use of an instance has the name of the instance, and the name that its module gives
to the port. -/
theorem written_of_instance {root callee : String} (declared : .inst root callee ∈ module.declarations)
    {use use' : Expr} (names : use.Identified) {spelled : ReferenceTarget}
    (spells : use.reference? ⟨circuit.main, module.name⟩ = some spelled) (named : spelled.ref = root)
    (followed : (plan.sweep circuit order).useExpr ⟨circuit.main, module.name⟩ use = .ok use')
    (home : ModuleTarget) :
    use'.reference? home = some ⟨home.circuit, home.module, [],
      plan.naming circuit order (.inst ((ModuleTarget.mk circuit.main module.name).inst root callee)),
      spelled.fields.map fun field =>
        plan.naming circuit order (.reference ((ModuleTarget.mk circuit.main callee).reference field))⟩ := by
  have nameOk := name_identified ready member declared
  have bound := plan.sweep_find?_declared ready member declared nameOk
  obtain ⟨rfl, same⟩ | ⟨field, rfl, same⟩ | ⟨port, signal, rfl, same⟩ := Expr.reference?_eq_some spells
  · rw [named] at followed same
    have gave := plan.useExpr_declared ready member declared
    obtain rfl := Except.ok.inj (gave.symm.trans followed)
    rw [same]
    rfl
  · rw [named] at followed same
    have fieldOk : isIdentifier field = true := names field (by simp [Expr.names])
    have gave := plan.useField_instancePort ready member declared fieldOk
    obtain rfl := Except.ok.inj (gave.symm.trans followed)
    rw [same]
    rfl
  · rw [named] at followed
    cases (Sweep.useField_belowPort bound).symm.trans followed

/-- No reference to an instance is declared, nor to anything below it. -/
theorem naming_instance_reference {root callee : String} (declared : .inst root callee ∈ module.declarations)
    {fields : List String}
    (names : (Target.reference ⟨circuit.main, module.name, [], root, fields⟩).Identified) :
    plan.naming circuit order (.reference ⟨circuit.main, module.name, [], root, fields⟩) =
      (Target.reference ⟨circuit.main, module.name, [], root, fields⟩).terminalName := by
  refine plan.naming_undeclared ready names fun inside => ?_
  rw [Circuit.declared_actions] at inside
  rcases List.mem_cons.mp inside with same | inside
  · cases same
  · obtain ⟨other, otherMember, inside⟩ := List.mem_flatMap.mp inside
    have sameModule : module.name = other.name := Option.some.inj (Module.moduleName?_of_mem inside)
    obtain rfl := List.inj_on_of_nodup_map ready.ordered.nodup member otherMember sameModule
    rcases Module.mem_targets_regular.mp inside with same | ⟨declaration, otherDeclared, inside⟩
    · cases same
    · have sameName : root = declaration.name := Declaration.baseName_of_mem inside
      have distinct := (ready.distinct module (ready.ordered.members _ member)).declared
      rw [RegularModule.declaredNames_eq] at distinct
      obtain rfl := List.inj_on_of_nodup_map distinct otherDeclared declared sameName.symm
      rcases List.mem_cons.mp inside with same | below
      · cases same
      · cases below

end Plan

/-- What a ledger says of the reference that a use spelled, for which another is written. Only a reference to
an instance is not tracked to the one that is written, unless this has the same names: the ledger has the
instance and the ports of its module under targets of their own, and these are tracked to the names that are
written. -/
structure Ledger.Follows (ledger : Ledger) (home result : ModuleTarget) (declaration : Declaration)
    (spelled written : ReferenceTarget) : Prop where
  declared : declaration.callee? = none → ledger.track (.reference spelled) = .ok (.reference written)
  instance_iff : ∀ callee, declaration.callee? = some callee →
    (ledger.track (.reference spelled) = .ok (.reference written) ↔
      written.ref = spelled.ref ∧ written.fields = spelled.fields)
  instance_names : ∀ callee, declaration.callee? = some callee → ∃ callee',
    ledger.track (.inst (home.inst spelled.ref callee)) = .ok (.inst (result.inst written.ref callee')) ∧
      List.Forall₂ (fun field field' =>
        ledger.track (.reference ((ModuleTarget.mk home.circuit callee).reference field)) =
          .ok (.reference ((ModuleTarget.mk result.circuit callee').reference field')))
        spelled.fields written.fields

namespace Plan

variable {circuit : Circuit} {order : List Module} (plan : Plan) (ready : circuit.Ready order)
  {module : RegularModule} (member : .regular module ∈ order)
include ready member

/-- A reference to an instance, or to anything below it, keeps these names when it is renamed. -/
theorem renamed_instance_reference {root callee : String} (declared : .inst root callee ∈ module.declarations)
    {fields : List String} (names : ∀ field ∈ fields, isIdentifier field = true) :
    (Target.reference ⟨circuit.main, module.name, [], root, fields⟩).renamed (plan.naming circuit order) =
      .reference ⟨plan.naming circuit order (.circuit circuit.main),
        plan.naming circuit order (.module ⟨circuit.main, module.name⟩), [], root, fields⟩ := by
  have homeOk := ready.identified.moduleName (ready.ordered.members _ member)
  have rootOk := name_identified ready member declared
  have own := plan.naming_instance_reference ready member declared (ready.identified.reference homeOk rootOk)
  cases fields with
  | nil => exact congrArg (fun ref => Target.reference ⟨_, _, [], ref, []⟩) own
  | cons field inner =>
    have fieldOk := names field List.mem_cons_self
    have below :=
      plan.naming_instance_reference ready member declared (ready.identified.field homeOk rootOk fieldOk)
    exact congrArg₂ (fun ref first => Target.reference ⟨_, _, [], ref, first :: inner⟩) own below

section Tracked

variable {use use' : Expr} (names : use.Identified) {spelled : ReferenceTarget}
  (spells : use.reference? ⟨circuit.main, module.name⟩ = some spelled)
include names spells

theorem spelled_identified : (Target.reference spelled).Identified := by
  intro name holds
  rcases Expr.names_of_reference? spells name holds with rfl | rfl | inUse
  · exact ready.identified.main
  · exact ready.identified.moduleName (ready.ordered.members _ member)
  · exact names name inUse

theorem track_spelled : (plan.sweep circuit order).renames.track (.reference spelled) =
    .ok ((Target.reference spelled).renamed (plan.naming circuit order)) :=
  (plan.sweep_plain ready).track_renamed fun _ => (spelled_identified ready member names spells).component

variable (followed : (plan.sweep circuit order).useExpr ⟨circuit.main, module.name⟩ use = .ok use')
include followed

theorem follows_declared {declaration : Declaration} (declared : declaration ∈ module.declarations)
    (own : declaration.callee? = none) (named : spelled.ref = declaration.name) :
    ∃ written,
      use'.reference? ((ModuleTarget.mk circuit.main module.name).renamed (plan.naming circuit order)) =
        some written ∧
        (plan.sweep circuit order).renames.Follows ⟨circuit.main, module.name⟩
          ((ModuleTarget.mk circuit.main module.name).renamed (plan.naming circuit order)) declaration
            spelled written := by
  have tracked := plan.track_spelled ready member names spells
  obtain ⟨written, spells', same⟩ :=
    plan.written_of_declared ready member declared own names spells named followed
  exact ⟨written, spells', {
    declared := fun _ => same ▸ tracked
    instance_iff := fun callee isInst => absurd (isInst.symm.trans own) (Option.some_ne_none callee)
    instance_names := fun callee isInst => absurd (isInst.symm.trans own) (Option.some_ne_none callee) }⟩

theorem follows_instance {root callee : String} (declared : .inst root callee ∈ module.declarations)
    (named : spelled.ref = root) :
    ∃ written,
      use'.reference? ((ModuleTarget.mk circuit.main module.name).renamed (plan.naming circuit order)) =
        some written ∧
        (plan.sweep circuit order).renames.Follows ⟨circuit.main, module.name⟩
          ((ModuleTarget.mk circuit.main module.name).renamed (plan.naming circuit order)) (.inst root callee)
          spelled written := by
  have plain := plan.sweep_plain ready
  have fieldsOk : ∀ field ∈ spelled.fields, isIdentifier field = true := fun field inside =>
    spelled_identified ready member names spells field (by simp [Target.names, inside])
  have tracked := plan.track_spelled ready member names spells
  have shape : spelled = ⟨circuit.main, module.name, [], root, spelled.fields⟩ := by
    rcases Expr.reference?_eq_some spells with ⟨-, same⟩ | ⟨_, -, same⟩ | ⟨_, _, -, same⟩ <;>
      rw [named] at same <;> rw [same] <;> rfl
  have kept := plan.renamed_instance_reference ready member declared fieldsOk
  rw [← shape] at kept
  rw [kept] at tracked
  refine ⟨_, plan.written_of_instance ready member declared names spells named followed _, ?_, ?_, ?_⟩
  · exact fun own => absurd own (Option.some_ne_none callee)
  · rintro _ -
    rw [tracked, named]
    simp [ModuleTarget.renamed, eq_comm]
  · rintro _ ⟨⟩
    have instOk := declared_identified ready member declared _ List.mem_cons_self
    have atInst := plain.track_renamed fun _ => instOk.component
    refine ⟨plan.naming circuit order (.module ⟨circuit.main, callee⟩), ?_, ?_⟩
    · rw [named]
      exact atInst
    · rw [List.forall₂_map_right_iff, List.forall₂_same]
      intro field inside
      have calleeOk := Circuit.callee_identified ready.identified (ready.ordered.members _ member) declared
      have portOk := ready.identified.reference calleeOk (fieldsOk field inside)
      exact plain.track_renamed fun _ => portOk.component

end Tracked

omit member in
theorem uses_follow (all : order.Perm circuit.modules) {orderOf : Circuit → Except Fault (List Module)}
    (asked : orderOf circuit = .ok order) {out : Circuit} {renames : Ledger}
    (run : plan.renameCircuit orderOf circuit = .ok (out, renames)) {home : Nat}
    (atHome : circuit.modules[home]? = some (.regular module)) :
    ∃ result, out.modules[home]? = some (.regular result) ∧
      List.Forall₂ (fun stmt stmt' => List.Forall₂ (fun use use' =>
          ∀ declaration ∈ module.declarations, ∀ spelled,
            use.reference? (circuit.home (.regular module)) = some spelled → spelled.ref = declaration.name →
            ∃ written, use'.reference? (out.home (.regular result)) = some written ∧
              renames.Follows (circuit.home (.regular module)) (out.home (.regular result)) declaration
                spelled written)
        stmt.uses stmt'.uses) module.statements result.statements := by
  have inCircuit := List.mem_of_getElem? atHome
  have member := all.mem_iff.mpr inCircuit
  obtain ⟨main, rfl, followed⟩ := (plan.renameCircuit_eq_ok ready all asked).mp run
  obtain ⟨_, atResult, gave⟩ := getElem?_of_forall₂_left followed atHome
  obtain ⟨result, rfl, renamedTo⟩ := follow_regular gave
  have there : out.home (.regular result) =
      (ModuleTarget.mk circuit.main module.name).renamed (plan.naming circuit order) :=
    congrArg₂ ModuleTarget.mk main renamedTo.name
  refine ⟨result, atResult, renamedTo.uses.imp fun stmt stmt' ⟨isStmt, each⟩ => each.imp fun use use' => ?_⟩
  rintro ⟨isUse, usesTo⟩ declaration declared spelled spells named
  have names := ready.identified.use inCircuit isStmt isUse
  rw [there]
  cases own : declaration.callee? with
  | none => exact plan.follows_declared ready member names spells usesTo declared own named
  | some callee =>
    cases declaration with
    | inst root callee => exact plan.follows_instance ready member names spells usesTo declared named
    | signal name => cases own
    | mem decl => cases own

end Plan

/-- Where the ledger of a run agrees with what the run writes. A use of a name that its module declares is
followed to a use of the tracked reference, at every depth; but a reference to an instance, or to a port of
it, is tracked to the one that is written only if the instance and the port keep their names. -/
theorem Pass.run_tracks_uses {spec : RuleSpec} {circuit out : Circuit} {ledger : Ledger} {skips : SkipSet}
    (decoded : circuit.Decoded) (distinct : circuit.LocallyDistinct)
    (unskipped : skips.contains (.circuit circuit.main) = false)
    (run : (Pass.ofSpec spec).run circuit .empty skips = .ok (out, ledger)) {home : Nat}
    {module : RegularModule} (atHome : circuit.modules[home]? = some (.regular module)) :
    ∃ result, out.modules[home]? = some (.regular result) ∧
      List.Forall₂ (fun stmt stmt' => List.Forall₂ (fun use use' =>
          ∀ declaration ∈ module.declarations, ∀ spelled,
            use.reference? (circuit.home (.regular module)) = some spelled → spelled.ref = declaration.name →
            ∃ written, use'.reference? (out.home (.regular result)) = some written ∧
              ledger.Follows (circuit.home (.regular module)) (out.home (.regular result)) declaration
                spelled written)
        stmt.uses stmt'.uses) module.statements result.statements := by
  obtain ⟨renames, changed, kept⟩ := (Pass.run_eq_ok unskipped).mp run
  obtain rfl := Except.ok.inj ((Ledger.compose_empty renames).symm.trans kept)
  obtain ⟨order, ordered⟩ := Plan.renameCircuit_order changed
  exact Plan.uses_follow _ (decoded.ready distinct ordered) (Circuit.leafToRoot_perm ordered)
    ordered changed atHome

open Circuit in
theorem Pass.run_sample_tracks_uses :
    ∃ out ledger, (Pass.ofSpec .lowerCase).run Sample.circuit .empty .empty = .ok (out, ledger) ∧
      ∃ result, out.modules[0]? = some (.regular result) ∧
        List.Forall₂ (fun stmt stmt' => List.Forall₂ (fun use use' =>
            ∀ declaration ∈ Sample.top.declarations, ∀ spelled,
              use.reference? ⟨"Top", "Top"⟩ = some spelled → spelled.ref = declaration.name →
              ∃ written, use'.reference? (out.home (.regular result)) = some written ∧
                ledger.Follows ⟨"Top", "Top"⟩ (out.home (.regular result)) declaration spelled written)
          stmt.uses stmt'.uses) Sample.top.statements result.statements := by
  have runs : ((Pass.ofSpec .lowerCase).run Sample.circuit .empty .empty).toOption.isSome = true := by
    decide +kernel
  obtain ⟨⟨out, ledger⟩, ran⟩ := Option.isSome_iff_exists.mp runs
  have run := toOption_eq_some.mp ran
  exact ⟨out, ledger, run, Pass.run_tracks_uses Sample.decoded Sample.distinct.inside rfl run rfl⟩

namespace Circuit.InstancePort

/-- A port of an instance that is used in the module above. -/
def value : Json := .object [("main", .string "Top"), ("modules", .array [
  .object [("kind", .string "module"), ("name", .string "Top"), ("ports", .array [Sample.port "i"]),
    ("body", .array [Sample.inst "u" "Sub",
      Sample.connect (Sample.field (Sample.ref "u") "a") (Sample.ref "i")])],
  .object [("kind", .string "module"), ("name", .string "Sub"), ("ports", .array [Sample.port "a"]),
    ("body", .array [])]])]

def circuit : Circuit where
  main := "Top"
  modules := [
    .regular ⟨"Top", [⟨"i", .input, .uint none⟩],
      [.inst "u" "Sub", .connect (.subfield (.ref "u") "a") (.ref "i")]⟩,
    .regular ⟨"Sub", [⟨"a", .input, .uint none⟩], []⟩]

theorem decoded : circuit.Decoded := ⟨value, by cbv⟩

theorem distinct : circuit.Distinct := by decide

/-- What the uses in a circuit spell, from the first to the last. -/
def spelledIn (circuit : Circuit) : List (Option ReferenceTarget) :=
  circuit.modules.flatMap fun module =>
    (module.statements.flatMap Stmt.uses).map (Expr.reference? (circuit.home module))

end Circuit.InstancePort

open Circuit in
/-- The instance is written under its new name, with the port under its own, but is tracked to the old
names. -/
theorem Pass.run_strands_instance_port : InstancePort.circuit.Decoded ∧ InstancePort.circuit.Distinct ∧
    InstancePort.spelledIn InstancePort.circuit =
      [some ⟨"Top", "Top", [], "u", ["a"]⟩, some ⟨"Top", "Top", [], "i", []⟩] ∧
    ∃ out ledger, (Pass.ofSpec (.prepend "p_")).run InstancePort.circuit .empty .empty = .ok (out, ledger) ∧
      InstancePort.spelledIn out =
        [some ⟨"p_Top", "p_Top", [], "p_u", ["p_a"]⟩, some ⟨"p_Top", "p_Top", [], "p_i", []⟩] ∧
      ledger.track (.reference ⟨"Top", "Top", [], "u", ["a"]⟩) =
        .ok (.reference ⟨"p_Top", "p_Top", [], "u", ["a"]⟩) ∧
      ledger.track (.reference ⟨"Top", "Top", [], "i", []⟩) =
        .ok (.reference ⟨"p_Top", "p_Top", [], "p_i", []⟩) := by
  have given : ((Pass.ofSpec (.prepend "p_")).run InstancePort.circuit .empty .empty).toOption.map
      (fun result => (InstancePort.spelledIn result.1,
        (result.2.track (.reference ⟨"Top", "Top", [], "u", ["a"]⟩)).toOption,
        (result.2.track (.reference ⟨"Top", "Top", [], "i", []⟩)).toOption)) =
      some ([some ⟨"p_Top", "p_Top", [], "p_u", ["p_a"]⟩, some ⟨"p_Top", "p_Top", [], "p_i", []⟩],
        some (.reference ⟨"p_Top", "p_Top", [], "u", ["a"]⟩),
        some (.reference ⟨"p_Top", "p_Top", [], "p_i", []⟩)) := by decide +kernel
  obtain ⟨⟨out, ledger⟩, ran, found⟩ := Option.map_eq_some_iff.mp given
  obtain ⟨written, tracked⟩ := Prod.mk.inj found
  obtain ⟨atPort, atInput⟩ := Prod.mk.inj tracked
  exact ⟨InstancePort.decoded, InstancePort.distinct, rfl, out, ledger, toOption_eq_some.mp ran, written,
    toOption_eq_some.mp atPort, toOption_eq_some.mp atInput⟩

end CircuitNames
