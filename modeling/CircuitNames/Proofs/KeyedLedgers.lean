import CircuitNames.Proofs.AgreeingSweeps

namespace CircuitNames

namespace Ledger

/-- The ledgers that registering and composing leave: no key is there twice, and every entry has replacements,
each with a text of its own. -/
structure Keyed (ledger : Ledger) : Prop where
  keys : (ledger.entries.map Entry.key).Nodup
  recorded : ∀ entry ∈ ledger.entries, entry.replacements ≠ []
  texts : ∀ entry ∈ ledger.entries, (entry.replacements.map Target.text).Nodup

theorem keyed_empty : Ledger.empty.Keyed := ⟨.nil, List.forall_mem_nil _, List.forall_mem_nil _⟩

theorem addReplacement_ne_nil (known : List Target) (target : Target) : addReplacement known target ≠ [] := by
  unfold addReplacement
  split
  · rename_i found
    rintro rfl
    cases found
  · simp

theorem nodup_addReplacement {known : List Target} (texts : (known.map Target.text).Nodup) (target : Target) :
    ((addReplacement known target).map Target.text).Nodup := by
  unfold addReplacement
  split
  · exact texts
  · rename_i fresh
    rw [List.map_append, List.nodup_append']
    refine ⟨texts, List.nodup_singleton _, List.disjoint_singleton.mpr fun present => fresh ?_⟩
    obtain ⟨other, inside, same⟩ := List.mem_map.mp present
    exact List.any_eq_true.mpr ⟨other, inside, beq_iff_eq.mpr same⟩

theorem foldl_addReplacement (targets known : List Target) :
    ((known.map Target.text).Nodup → ((targets.foldl addReplacement known).map Target.text).Nodup) ∧
      (known ≠ [] ∨ targets ≠ [] → targets.foldl addReplacement known ≠ []) ∧
      ∀ target ∈ targets.foldl addReplacement known, target ∈ known ∨ target ∈ targets := by
  induction targets generalizing known with
  | nil => exact ⟨id, fun some_ => some_.resolve_right (by simp), fun _ inside => Or.inl inside⟩
  | cons target rest ih =>
    obtain ⟨texts, some_, members⟩ := ih (addReplacement known target)
    refine ⟨fun before => texts (nodup_addReplacement before target),
      fun _ => some_ (Or.inl (addReplacement_ne_nil _ _)), fun other inside => ?_⟩
    rcases members other inside with here | later
    · rcases mem_addReplacement here with before | rfl
      · exact Or.inl before
      · exact Or.inr List.mem_cons_self
    · exact Or.inr (List.mem_cons_of_mem _ later)

variable {ledger other next : Ledger}

/-- A registered replacement changes no key, or adds one that is new. -/
theorem Keyed.register (keyed : ledger.Keyed) (source replacement : Target) :
    (ledger.register source replacement).Keyed := by
  unfold Ledger.register
  split
  · have keys : ((ledger.entries.map fun entry => if entry.key = source.text then
          { entry with replacements := addReplacement entry.replacements replacement }
        else entry).map Entry.key) = ledger.entries.map Entry.key := by
      rw [List.map_map]
      refine List.map_congr_left fun entry _ => ?_
      simp only [Function.comp_apply]
      split <;> rfl
    refine ⟨keys ▸ keyed.keys, List.forall_mem_map.mpr fun entry inside => ?_,
      List.forall_mem_map.mpr fun entry inside => ?_⟩
    · split
      · exact addReplacement_ne_nil _ _
      · exact keyed.recorded entry inside
    · split
      · exact nodup_addReplacement (keyed.texts entry inside) _
      · exact keyed.texts entry inside
  · rename_i fresh
    have absent : source.text ∉ ledger.entries.map Entry.key := by
      simpa [contains, find?, List.mem_map] using fresh
    refine ⟨?_, List.forall_mem_append.mpr ⟨keyed.recorded, by simp⟩,
      List.forall_mem_append.mpr ⟨keyed.texts, by simp⟩⟩
    rw [List.map_append, List.nodup_append']
    exact ⟨keyed.keys, List.nodup_singleton _, List.disjoint_singleton.mpr absent⟩

/-- What a chased replacement becomes differs from it in its last name only. -/
theorem chase_eq_ok {replacement : Target} {chased : List Target}
    (run : ledger.chase next replacement = .ok chased) :
    chased = [replacement] ∨ ∃ entry ∈ next.entries,
      chased = entry.replacements.map fun target => replacement.withTerminalName target.terminalName := by
  obtain ⟨lifted, -, run⟩ := bind_eq_ok.mp run
  split at run
  · exact Or.inl (Except.ok.inj run).symm
  · rename_i found
    obtain ⟨entry, isEntry, rfl⟩ := Option.map_eq_some_iff.mp found
    exact Or.inr ⟨entry, List.mem_of_find?_eq_some isEntry, (Except.ok.inj run).symm⟩

/-- An entry keeps its source, and its replacements move on to what they were chased to. -/
theorem chaseEntry_eq_ok {entry result : Entry} (run : ledger.chaseEntry next entry = .ok result) :
    ∃ chased, List.Forall₂ (fun replacement found => ledger.chase next replacement = .ok found)
      entry.replacements chased ∧
      result = { entry with replacements := chased.flatten.foldl addReplacement [] } := by
  obtain ⟨chased, mapped, run⟩ := bind_eq_ok.mp run
  exact ⟨chased, mapM_eq_ok.mp mapped, (Except.ok.inj run).symm⟩

theorem compose_eq_ok {result : Ledger} (composed : ledger.compose next = .ok result) :
    ∃ moved, List.Forall₂ (fun entry found => ledger.chaseEntry next entry = .ok found) ledger.entries moved ∧
      result = ⟨moved ++ next.entries.filter fun entry => !ledger.contains entry.source⟩ := by
  obtain ⟨moved, mapped, run⟩ := bind_eq_ok.mp composed
  exact ⟨moved, mapM_eq_ok.mp mapped, (Except.ok.inj run).symm⟩

/-- Every replacement in a chased entry comes from one that was there before. -/
theorem mem_chaseEntry {entry result : Entry} (run : ledger.chaseEntry next entry = .ok result)
    {target : Target} (inside : target ∈ result.replacements) :
    ∃ before ∈ entry.replacements, target = before ∨ ∃ last ∈ next.entries, ∃ later ∈ last.replacements,
      target = before.withTerminalName later.terminalName := by
  obtain ⟨chased, each, rfl⟩ := chaseEntry_eq_ok run
  rcases (foldl_addReplacement chased.flatten []).2.2 target inside with none | member
  · cases none
  · obtain ⟨found, isFound, member⟩ := List.mem_flatten.mp member
    obtain ⟨before, isBefore, chases⟩ := exists_of_mem_right each isFound
    refine ⟨before, isBefore, ?_⟩
    rcases chase_eq_ok chases with rfl | ⟨last, isLast, rfl⟩
    · exact Or.inl (List.mem_singleton.mp member)
    · obtain ⟨later, isLater, rfl⟩ := List.mem_map.mp member
      exact Or.inr ⟨last, isLast, later, isLater, rfl⟩

theorem Keyed.chaseEntry (keyed : ledger.Keyed) (later : next.Keyed) {entry result : Entry}
    (inside : entry ∈ ledger.entries) (run : ledger.chaseEntry next entry = .ok result) :
    result.replacements ≠ [] ∧ (result.replacements.map Target.text).Nodup := by
  obtain ⟨chased, each, rfl⟩ := chaseEntry_eq_ok run
  obtain ⟨texts, some_, -⟩ := foldl_addReplacement chased.flatten []
  refine ⟨some_ (Or.inr fun empty => ?_), texts List.nodup_nil⟩
  obtain ⟨before, isBefore⟩ := List.exists_mem_of_ne_nil _ (keyed.recorded entry inside)
  obtain ⟨found, isFound, chases⟩ := exists_of_mem_left each isBefore
  have none : found = [] := List.flatten_eq_nil_iff.mp empty found isFound
  rcases chase_eq_ok chases with rfl | ⟨last, isLast, rfl⟩
  · cases none
  · exact later.recorded last isLast (List.map_eq_nil_iff.mp none)

theorem Keyed.compose (keyed : ledger.Keyed) (later : next.Keyed) {result : Ledger}
    (composed : ledger.compose next = .ok result) : result.Keyed := by
  obtain ⟨moved, each, rfl⟩ := compose_eq_ok composed
  have keys : moved.map Entry.key = ledger.entries.map Entry.key := by
    refine map_eq_of_forall₂ (each.imp fun entry found run => ?_)
    obtain ⟨_, _, rfl⟩ := chaseEntry_eq_ok run
    rfl
  have chased : ∀ entry ∈ moved, entry.replacements ≠ [] ∧ (entry.replacements.map Target.text).Nodup := by
    intro found isFound
    obtain ⟨entry, inside, run⟩ := exists_of_mem_right each isFound
    exact keyed.chaseEntry later inside run
  constructor
  · rw [List.map_append, List.nodup_append', keys]
    refine ⟨keyed.keys, later.keys.sublist (List.filter_sublist.map _), ?_⟩
    rintro key before after
    obtain ⟨entry, inside, rfl⟩ := List.mem_map.mp after
    have absent := (List.mem_filter.mp inside).2
    obtain ⟨old, isOld, same⟩ := List.mem_map.mp before
    have present : ledger.contains entry.source = true := by
      simpa [contains, find?] using ⟨old, isOld, same⟩
    simp [present] at absent
  · exact List.forall_mem_append.mpr ⟨fun entry inside => (chased entry inside).1,
      fun entry inside => later.recorded entry (List.mem_of_mem_filter inside)⟩
  · exact List.forall_mem_append.mpr ⟨fun entry inside => (chased entry inside).2,
      fun entry inside => later.texts entry (List.mem_of_mem_filter inside)⟩

/-- What is found under a target is the one entry with its text. -/
theorem Keyed.find?_eq_some_iff (keyed : ledger.Keyed) {target : Target} {entry : Entry} :
    ledger.find? target = some entry ↔ entry ∈ ledger.entries ∧ entry.key = target.text := by
  constructor
  · exact fun found => ⟨List.mem_of_find?_eq_some found, by simpa using List.find?_some found⟩
  · rintro ⟨inside, key⟩
    obtain ⟨first, found⟩ := Option.isSome_iff_exists.mp
      (List.find?_isSome (p := fun entry : Entry => entry.key == target.text) |>.mpr
        ⟨entry, inside, beq_iff_eq.mpr key⟩)
    have same : first.key = target.text := by simpa using List.find?_some found
    have unique :=
      List.inj_on_of_nodup_map keyed.keys (List.mem_of_find?_eq_some found) inside (same.trans key.symm)
    exact unique ▸ found

section Order
variable (keyed : ledger.Keyed) (same : ledger.entries.Perm other.entries)
include keyed same

theorem Keyed.perm : other.Keyed where
  keys := (same.map Entry.key).nodup_iff.mp keyed.keys
  recorded entry inside := keyed.recorded entry (same.mem_iff.mpr inside)
  texts entry inside := keyed.texts entry (same.mem_iff.mpr inside)

/-- The order of the entries has no say in what is found. -/
theorem Keyed.find?_perm : other.find? = ledger.find? := by
  funext target
  refine Option.ext fun entry => ?_
  rw [(keyed.perm same).find?_eq_some_iff, keyed.find?_eq_some_iff, same.mem_iff]

theorem Keyed.nameOf_perm : other.nameOf = ledger.nameOf := by
  funext target
  simp only [nameOf, resolve?, get?, keyed.find?_perm same]

theorem Keyed.follow_perm : other.follow = ledger.follow := by
  have names := keyed.nameOf_perm same
  have hop : other.followHop = ledger.followHop := by
    funext circuit parent hop
    simp only [followHop, names]
  have path : other.followPath = ledger.followPath := by
    funext circuit parent path
    induction path generalizing parent with
    | nil => rfl
    | cons hop rest ih => simp only [followPath, ‹other.followHop = ledger.followHop›, ih]
  funext terminal target
  cases target with
  | circuit name => simp only [follow, names]
  | module target => simp only [follow, names]
  | inst target => simp only [follow, names, hop, path]
  | reference target =>
    obtain ⟨circuit, module, hops, ref, fields⟩ := target
    cases fields <;> simp only [follow, names, path]

/-- Two ledgers with the same entries compose to ledgers with the same entries. -/
theorem Keyed.compose_perm {result : Ledger} (composed : ledger.compose next = .ok result) :
    ∃ final, other.compose next = .ok final ∧ result.entries.Perm final.entries := by
  obtain ⟨moved, each, rfl⟩ := compose_eq_ok composed
  have chases : other.chaseEntry next = ledger.chaseEntry next := by
    have each : other.chase next = ledger.chase next := by
      funext replacement
      simp only [chase, keyed.follow_perm same]
    funext entry
    simp only [Ledger.chaseEntry, each]
  have recorded : other.contains = ledger.contains := by
    funext target
    simp only [contains, keyed.find?_perm same]
  obtain ⟨found, alsoEach, reordered⟩ := List.perm_comp_forall₂ same.symm each
  refine ⟨⟨found ++ next.entries.filter fun entry => !ledger.contains entry.source⟩, ?_,
    reordered.symm.append_right _⟩
  rw [Ledger.compose, chases, recorded]
  exact bind_ok (mapM_eq_ok.mpr alsoEach) rfl

end Order

end Ledger

end CircuitNames
