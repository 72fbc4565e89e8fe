import CircuitNames.Proofs.HierarchicalTargets

namespace CircuitNames

namespace Ledger

variable {ledger next : Ledger}

section Track
variable (plain : ledger.Plain)
include plain

theorem Plain.track_eq {address : Address} (names : address.Identified) :
    ledger.track address.target = .ok (address.renamed ledger.name).target := by
  rw [plain.track_renamed fun _ => Target.Identified.component names, Address.renamed_target]

/-- What encloses the last name of a replacement is renamed, and the last name stays. -/
theorem Plain.follow_enclosing {address : Address} (names : address.Identified) {last : String}
    (identifier : isIdentifier last = true) :
    ledger.follow false (address.target.withTerminalName last) =
      .ok ((address.renamed ledger.name).target.withTerminalName last) := by
  have part : ∀ part ∈ address.components, ledger.nameOf part.target = .ok (ledger.name part.target) :=
    fun part inside => plain.nameOf_eq (names.component inside)
  cases address with
  | circuit name => rfl
  | module home =>
    have main := part (.circuit home.circuit) (by simp [Address.components])
    exact bind_eq_ok.mpr ⟨_, main, rfl⟩
  | inst home name callee =>
    have main := part (.circuit home.circuit) (by simp [Address.components])
    have module := part (.module home) (by simp [Address.components])
    have changed : (Address.inst home last callee).Identified := names.withTerminalName identifier
    have hop := plain.followHop_eq changed
    exact bind_eq_ok.mpr
      ⟨_, main, bind_eq_ok.mpr ⟨_, module, bind_eq_ok.mpr ⟨[], rfl, bind_eq_ok.mpr ⟨_, hop, rfl⟩⟩⟩⟩
  | reference home name =>
    have main := part (.circuit home.circuit) (by simp [Address.components])
    have module := part (.module home) (by simp [Address.components])
    exact bind_eq_ok.mpr ⟨_, main, bind_eq_ok.mpr ⟨_, module, bind_eq_ok.mpr ⟨[], rfl, rfl⟩⟩⟩
  | port home memory name =>
    have main := part (.circuit home.circuit) (by simp [Address.components])
    have module := part (.module home) (by simp [Address.components])
    have base := part (.reference home memory) (by simp [Address.components])
    exact bind_eq_ok.mpr
      ⟨_, main, bind_eq_ok.mpr ⟨_, module, bind_eq_ok.mpr ⟨[], rfl, bind_eq_ok.mpr ⟨_, base, rfl⟩⟩⟩⟩

end Track

/-- What a later ledger makes of the last name of a replacement. -/
def nameAfter (ledger next : Ledger) (address : Address) (last : String) : String :=
  next.name ((address.renamed ledger.name).target.withTerminalName last)

/-- An entry after the renames of a later ledger. -/
def moved (ledger next : Ledger) (entry : Entry) : Entry :=
  let address := Address.ofTarget entry.source
  { entry with replacements := entry.replacements.map fun replacement =>
      replacement.withTerminalName (ledger.nameAfter next address replacement.terminalName) }

/-- An entry that renames its source's last name is carried on to the name which the next ledger gives. -/
theorem moved_eq (address : Address) (last : String) :
    ledger.moved next ⟨address.target, [address.target.withTerminalName last]⟩ =
      ⟨address.target, [address.target.withTerminalName (ledger.nameAfter next address last)]⟩ := by
  simp [moved, Address.ofTarget_target, Target.withTerminalName_withTerminalName]

section Compose
variable (regular : ledger.Regular) (later : next.Regular)
include regular

theorem Regular.lifted_identified {address : Address} (names : address.Identified) {last : String}
    (identifier : isIdentifier last = true) :
    ((address.renamed ledger.name).target.withTerminalName last).Identified :=
  (names.renamed fun _ each => regular.identifies.name each).withTerminalName identifier

include later

theorem Regular.chase_eq {address : Address} (names : address.Identified) {last : String}
    (identifier : isIdentifier last = true) :
    ledger.chase next (address.target.withTerminalName last) =
      .ok [address.target.withTerminalName (ledger.nameAfter next address last)] := by
  have lifted := regular.plain.follow_enclosing names identifier
  refine bind_eq_ok.mpr ⟨_, lifted, ?_⟩
  cases recorded : next.contains ((address.renamed ledger.name).target.withTerminalName last) with
  | false =>
    rw [get?_eq_none_iff.mpr recorded, nameAfter, name_of_not_contains recorded,
      Target.terminalName_withTerminalName]
    rfl
  | true =>
    rw [later.plain.get?_eq (regular.lifted_identified names identifier) recorded]
    simp [nameAfter, Target.withTerminalName_withTerminalName, pure, Except.pure]

theorem Regular.chaseEntry_eq {entry : Entry} (inside : entry ∈ ledger.entries) :
    ledger.chaseEntry next entry = .ok (ledger.moved next entry) := by
  obtain ⟨address, last, names, identifier, rfl⟩ := regular entry inside
  rw [moved_eq]
  refine bind_eq_ok.mpr ⟨[[address.target.withTerminalName (ledger.nameAfter next address last)]], ?_, rfl⟩
  exact mapM_eq_ok.mpr (.cons (regular.chase_eq later names identifier) .nil)

/-- The composition of regular ledgers in closed form: the first ledger's entries, carried on, and after them
those of the second whose sources the first does not have. -/
theorem Regular.compose_eq : ledger.compose next =
    .ok ⟨ledger.entries.map (ledger.moved next) ++ next.entries.filter fun entry =>
      !ledger.contains entry.source⟩ := by
  refine bind_eq_ok.mpr ⟨_, mapM_eq_ok.mpr ?_, rfl⟩
  exact List.forall₂_map_right_iff.mpr
    (List.forall₂_same.mpr fun entry inside => regular.chaseEntry_eq later inside)

variable {result : Ledger} (composed : ledger.compose next = .ok result)
include composed

theorem Regular.compose : result.Regular := by
  obtain rfl := Except.ok.inj ((regular.compose_eq later).symm.trans composed)
  intro entry inside
  rcases List.mem_append.mp inside with old | new
  · obtain ⟨before, isBefore, rfl⟩ := List.mem_map.mp old
    obtain ⟨address, last, names, identifier, rfl⟩ := regular before isBefore
    have named := later.identifies.name (regular.lifted_identified names identifier)
    exact ⟨address, _, names, named, moved_eq address last⟩
  · exact later entry (List.mem_of_mem_filter new)

/-- What is found in a composed ledger is what the earlier one recorded, moved on, or else what the later one
did. -/
theorem Regular.find?_compose (target : Target) :
    result.find? target = ((ledger.find? target).map (ledger.moved next)).or (next.find? target) := by
  obtain rfl := Except.ok.inj ((regular.compose_eq later).symm.trans composed)
  -- The entries that the filter drops have the key of an earlier entry, so they matter only where it is found.
  have kept : (next.entries.filter fun entry => !ledger.contains entry.source).find? (·.key == target.text) =
      if ledger.contains target then none else next.find? target := by
    have same : ∀ entry : Entry, (entry.key == target.text) = true →
        ledger.contains entry.source = ledger.contains target :=
      fun entry key => contains_congr (by simpa [Entry.key] using key)
    rw [List.find?_filter]
    split
    next recorded =>
      refine List.find?_eq_none.mpr fun entry _ both => ?_
      obtain ⟨dropped, key⟩ := of_decide_eq_true both
      simp [same entry key, recorded] at dropped
    next absent =>
      refine congrArg (List.find? · next.entries) (funext fun entry => ?_)
      cases key : entry.key == target.text with
      | false => simp
      | true => simp [same entry key, absent]
  rw [find?, List.find?_append, List.find?_map, kept]
  change ((ledger.find? target).map (ledger.moved next)).or _ = _
  cases found : ledger.find? target with
  | none => simp [contains, found]
  | some entry => simp

theorem Regular.contains_compose (target : Target) :
    result.contains target = (ledger.contains target || next.contains target) := by
  rw [contains, regular.find?_compose later composed]
  cases found : ledger.find? target <;> simp [contains, found]

/-- A composed ledger names what the earlier one recorded by the names that this had got, and the rest by its
own. -/
theorem Regular.name_compose {address : Address} (names : address.Identified) :
    result.name address.target = if ledger.contains address.target
      then next.name (address.renamed ledger.name).target
      else next.name address.target := by
  cases found : ledger.find? address.target with
  | none =>
    have same : result.find? address.target = next.find? address.target := by
      rw [regular.find?_compose later composed, found]
      rfl
    simp [name, resolve?, get?, contains, found, same]
  | some entry =>
    obtain ⟨source, last, own, identifier, rfl⟩ := regular entry (List.mem_of_find?_eq_some found)
    obtain rfl := Address.target_injective (regular.plain.source_eq names found)
    have before : ledger.name source.target = last := by simp [name, resolve?, get?, found]
    have after : result.name source.target = ledger.nameAfter next source last := by
      simp [name, resolve?, get?, regular.find?_compose later composed, found, moved_eq]
    rw [after, nameAfter, ← before, Address.withTerminalName_renamed]
    simp [contains, found]

end Compose

end Ledger

end CircuitNames
