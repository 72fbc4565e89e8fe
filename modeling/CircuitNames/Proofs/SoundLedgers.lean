import CircuitNames.Proofs.KeyedLedgers
import CircuitNames.Proofs.RegularLedgers

namespace CircuitNames

namespace Target

/-- The instance and the module of each hop are named by identifiers. -/
def HopsIdentified (path : List Hop) : Prop :=
  ∀ hop ∈ path, isIdentifier hop.inst = true ∧ isIdentifier hop.ofModule = true

theorem identified_inst {target : InstanceTarget} : (Target.inst target).Identified ↔
    (Target.module ⟨target.circuit, target.module⟩).Identified ∧ HopsIdentified target.path ∧
      isIdentifier target.inst = true ∧ isIdentifier target.ofModule = true := by
  simp only [Identified, names, HopsIdentified, List.mem_flatMap, List.mem_cons, List.not_mem_nil]
  grind

theorem identified_reference {target : ReferenceTarget} : (Target.reference target).Identified ↔
    (Target.module ⟨target.circuit, target.module⟩).Identified ∧ HopsIdentified target.path ∧
      isIdentifier target.ref = true ∧ ∀ field ∈ target.fields, isIdentifier field = true := by
  simp only [Identified, names, HopsIdentified, List.mem_append, List.mem_flatMap, List.mem_cons,
    List.not_mem_nil]
  grind

theorem identified_module {home : ModuleTarget} : (Target.module home).Identified ↔
    isIdentifier home.circuit = true ∧ isIdentifier home.module = true := by
  simp [Identified, names]

end Target

namespace Ledger

/-- All names are identifiers, and a replacement is of the kind of what it replaces. -/
structure Sound (ledger : Ledger) : Prop where
  keyed : ledger.Keyed
  kinded : ledger.Kinded
  identifies : ledger.Identifies

theorem sound_empty : Ledger.empty.Sound :=
  ⟨keyed_empty, List.forall_mem_nil _, List.forall_mem_nil _⟩

variable {ledger next : Ledger}

theorem Identifies.register (identifies : ledger.Identifies) (source : Target) {replacement : Target}
    (names : replacement.Identified) : (ledger.register source replacement).Identifies := by
  intro entry inside
  unfold Ledger.register at inside
  split at inside
  · obtain ⟨old, member, rfl⟩ := List.mem_map.mp inside
    split
    · intro other isReplacement
      rcases mem_addReplacement isReplacement with before | rfl
      · exact identifies old member other before
      · exact names
    · exact identifies old member
  · rcases List.mem_append.mp inside with old | new
    · exact identifies entry old
    · obtain rfl := List.mem_singleton.mp new
      exact List.forall_mem_singleton.mpr names

/-- The ledgers of proper passes are sound over any circuit, names that repeat included: a target may have
several replacements there. -/
theorem Sound.register (sound : ledger.Sound) {target : Target} (names : target.Identified) {fresh : String}
    (identifier : isIdentifier fresh = true) :
    (ledger.register target (target.withTerminalName fresh)).Sound where
  keyed := sound.keyed.register _ _
  kinded := sound.kinded.register names (Target.kind_withTerminalName _ _)
  identifies := sound.identifies.register _ (names.withTerminalName identifier)

section Following
variable (kinded : ledger.Kinded)
include kinded

theorem Kinded.nameOf_total {component : Target} (names : component.Identified) :
    ∃ name, ledger.nameOf component = .ok name := by
  unfold nameOf
  split
  · exact ⟨_, rfl⟩
  · rename_i found
    exact ⟨_, if_pos (kinded.resolve?_kind names found)⟩

theorem Kinded.followHop_total {home : ModuleTarget} (homeOk : (Target.module home).Identified)
    {own callee : String} (names : isIdentifier own = true ∧ isIdentifier callee = true) :
    ∃ result, ledger.followHop home.circuit home.module ⟨own, callee⟩ = .ok result := by
  have target : (Target.inst (home.inst own callee)).Identified :=
    Target.identified_inst.mpr ⟨homeOk, List.forall_mem_nil _, names⟩
  have module : (Target.module ⟨home.circuit, callee⟩).Identified :=
    Target.identified_module.mpr ⟨(Target.identified_module.mp homeOk).1, names.2⟩
  obtain ⟨fresh, atInst⟩ := kinded.nameOf_total target
  obtain ⟨freshModule, atModule⟩ := kinded.nameOf_total module
  exact ⟨_, bind_ok atInst <| bind_ok atModule rfl⟩

omit kinded in
theorem endOfPath_identified {home : ModuleTarget} (homeOk : (Target.module home).Identified)
    {path : List Hop} (hops : Target.HopsIdentified path) :
    (Target.module ⟨home.circuit, endOfPath home.module path⟩).Identified := by
  obtain ⟨circuitOk, moduleOk⟩ := Target.identified_module.mp homeOk
  refine Target.identified_module.mpr ⟨circuitOk, ?_⟩
  unfold endOfPath
  cases last : path.getLast? with
  | none => exact moduleOk
  | some hop => exact (hops hop (List.mem_of_getLast? last)).2

/-- So a path can be followed to its end. -/
theorem Kinded.followPath_total {home : ModuleTarget} (homeOk : (Target.module home).Identified)
    {path : List Hop} (hops : Target.HopsIdentified path) :
    ∃ result, ledger.followPath home.circuit home.module path = .ok result := by
  induction path generalizing home with
  | nil => exact ⟨[], rfl⟩
  | cons hop rest ih =>
    obtain ⟨first, later⟩ := List.forall_mem_cons.mp hops
    obtain ⟨step, atHop⟩ := kinded.followHop_total homeOk first
    have nextOk : (Target.module ⟨home.circuit, hop.ofModule⟩).Identified :=
      Target.identified_module.mpr ⟨(Target.identified_module.mp homeOk).1, first.2⟩
    obtain ⟨steps, atRest⟩ := ih nextOk later
    exact ⟨_, bind_ok atHop <| bind_ok atRest rfl⟩

/-- The names around the last one of a target are found. -/
theorem Kinded.enclosing_total {home : ModuleTarget} (homeOk : (Target.module home).Identified) :
    (∃ circuit, ledger.nameOf (.circuit home.circuit) = .ok circuit) ∧
      ∃ module, ledger.nameOf (.module home) = .ok module :=
  ⟨kinded.nameOf_total (List.forall_mem_singleton.mpr (Target.identified_module.mp homeOk).1),
    kinded.nameOf_total homeOk⟩

/-- A reference is followed by its base and, where it has fields, by the first of them; the others stay. -/
theorem Kinded.follow_reference_total (terminal : Bool) {target : ReferenceTarget}
    (names : (Target.reference target).Identified) :
    ∃ result, ledger.follow terminal (.reference target) = .ok result := by
  obtain ⟨home, name, hops, ref, fields⟩ := target
  obtain ⟨homeOk, hopsOk, refOk, fieldsOk⟩ := Target.identified_reference.mp names
  obtain ⟨⟨circuit, atCircuit⟩, module, atModule⟩ := kinded.enclosing_total homeOk
  obtain ⟨path, atPath⟩ := kinded.followPath_total homeOk hopsOk
  have parentOk := endOfPath_identified homeOk hopsOk
  obtain ⟨base, atBase⟩ := kinded.nameOf_total (Lockstep.reference_named parentOk refOk)
  cases fields with
  | nil =>
    cases terminal with
    | false => exact ⟨_, bind_ok atCircuit <| bind_ok atModule <| bind_ok atPath rfl⟩
    | true => exact ⟨_, bind_ok atCircuit <| bind_ok atModule <| bind_ok atPath <| bind_ok atBase rfl⟩
  | cons first inner =>
    have fieldOk : (Target.reference
        (((ModuleTarget.mk home (endOfPath name hops)).reference ref).field first)).Identified :=
      Target.identified_reference.mpr ⟨parentOk, List.forall_mem_nil _, refOk,
        List.forall_mem_singleton.mpr (fieldsOk first List.mem_cons_self)⟩
    obtain ⟨field, atField⟩ := kinded.nameOf_total fieldOk
    cases asked : terminal || !inner.isEmpty with
    | false =>
      refine ⟨.reference ⟨circuit, module, path, base, first :: inner⟩, ?_⟩
      refine bind_ok atCircuit <| bind_ok atModule <| bind_ok atPath <| bind_ok atBase ?_
      rw [asked]
      rfl
    | true =>
      refine ⟨.reference ⟨circuit, module, path, base, field :: inner⟩, ?_⟩
      refine bind_ok atCircuit <| bind_ok atModule <| bind_ok atPath <| bind_ok atBase ?_
      rw [asked]
      exact bind_ok atField rfl

/-- What is named by identifiers can be followed: no component changes its kind. -/
theorem Kinded.follow_total (terminal : Bool) {target : Target} (names : target.Identified) :
    ∃ result, ledger.follow terminal target = .ok result := by
  cases target with
  | circuit name =>
    obtain ⟨fresh, named⟩ := kinded.nameOf_total names
    cases terminal with
    | false => exact ⟨_, rfl⟩
    | true => exact ⟨.circuit fresh, by simp [follow, named, Except.map]⟩
  | module target =>
    obtain ⟨⟨circuit, atCircuit⟩, module, atModule⟩ := kinded.enclosing_total names
    cases terminal with
    | false => exact ⟨_, bind_ok atCircuit rfl⟩
    | true => exact ⟨_, bind_ok atCircuit <| bind_ok atModule rfl⟩
  | inst target =>
    obtain ⟨homeOk, hops, last⟩ := Target.identified_inst.mp names
    obtain ⟨⟨circuit, atCircuit⟩, module, atModule⟩ := kinded.enclosing_total homeOk
    obtain ⟨path, atPath⟩ := kinded.followPath_total homeOk hops
    obtain ⟨hop, atHop⟩ := kinded.followHop_total (endOfPath_identified homeOk hops) last
    exact ⟨_, bind_ok atCircuit <| bind_ok atModule <| bind_ok atPath <| bind_ok atHop rfl⟩
  | reference target => exact kinded.follow_reference_total terminal names

end Following

theorem chaseEntry_source {entry result : Entry} (run : ledger.chaseEntry next entry = .ok result) :
    result.source = entry.source := by
  obtain ⟨_, _, rfl⟩ := chaseEntry_eq_ok run
  rfl

theorem Identifies.compose (identifies : ledger.Identifies) (later : next.Identifies) {result : Ledger}
    (composed : ledger.compose next = .ok result) : result.Identifies := by
  obtain ⟨moved, each, rfl⟩ := compose_eq_ok composed
  intro entry inside
  rcases List.mem_append.mp inside with old | new
  · obtain ⟨before, isBefore, run⟩ := exists_of_mem_right each old
    intro target isTarget
    obtain ⟨replacement, isReplacement, rfl | ⟨last, isLast, later', isLater, rfl⟩⟩ :=
      mem_chaseEntry run isTarget
    · exact identifies before isBefore _ isReplacement
    · have names := identifies before isBefore _ isReplacement
      exact names.withTerminalName (later last isLast later' isLater).terminalName
  · exact later entry (List.mem_of_mem_filter new)

/-- Sound ledgers compose, and the result is sound. -/
theorem Sound.compose (sound : ledger.Sound) (later : next.Sound) :
    ∃ result, ledger.compose next = .ok result ∧ result.Sound := by
  have chases (replacement : Target) (names : replacement.Identified) : ∃ found,
      ledger.chase next replacement = .ok found := by
    obtain ⟨lifted, follows⟩ := sound.kinded.follow_total false names
    cases found : next.get? lifted with
    | none => exact ⟨_, bind_ok follows (by rw [found]; rfl)⟩
    | some targets => exact ⟨_, bind_ok follows (by rw [found]; rfl)⟩
  obtain ⟨moved, mapped⟩ := mapM_total (f := ledger.chaseEntry next) fun entry inside => by
    obtain ⟨chased, atEach⟩ := mapM_total fun replacement isReplacement =>
      chases replacement (sound.identifies entry inside replacement isReplacement)
    exact ⟨_, bind_ok atEach rfl⟩
  refine ⟨_, bind_ok mapped rfl, ?_⟩
  have composed :
      ledger.compose next = .ok ⟨moved ++ next.entries.filter fun entry => !ledger.contains entry.source⟩ :=
    bind_ok mapped rfl
  have each := mapM_eq_ok.mp mapped
  refine ⟨sound.keyed.compose later.keyed composed, fun entry inside => ?_,
    sound.identifies.compose later.identifies composed⟩
  rcases List.mem_append.mp inside with old | new
  · obtain ⟨before, isBefore, run⟩ := exists_of_mem_right each old
    obtain ⟨names, kinds⟩ := sound.kinded before isBefore
    have source := chaseEntry_source run
    refine ⟨source ▸ names, fun target isTarget => ?_⟩
    obtain ⟨replacement, isReplacement, rfl | ⟨_, _, later, _, rfl⟩⟩ := mem_chaseEntry run isTarget
    · exact source ▸ kinds _ isReplacement
    · rw [Target.kind_withTerminalName, source]
      exact kinds _ isReplacement
  · exact later.kinded entry (List.mem_of_mem_filter new)

end Ledger

end CircuitNames
