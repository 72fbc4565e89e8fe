import CircuitNames.Proofs.InterchangeForms
import CircuitNames.Proofs.SoundLedgers
import CircuitNames.Proofs.WrittenLedgers

namespace CircuitNames

namespace Target

theorem readName_identifier {chars : List Char} {name : String} (read : readName chars = .ok name) :
    isIdentifier name = true := by
  unfold readName at read
  dsimp only at read
  split at read
  · rename_i identifier
    exact Except.ok.inj read ▸ identifier
  · cases read

theorem readNames_identified {parts : List (List Char)} {found : List String}
    (read : parts.mapM readName = .ok found) :
    ∀ name ∈ found, isIdentifier name = true := fun name inside => by
  obtain ⟨part, -, here⟩ := exists_of_mem_right (mapM_eq_ok.mp read) inside
  exact readName_identifier here

theorem readHop_identified {chars : List Char} {hop : Hop} (read : readHop chars = .ok hop) :
    isIdentifier hop.inst = true ∧ isIdentifier hop.ofModule = true := by
  unfold readHop at read
  split at read
  · obtain ⟨own, atOwn, callee, atCallee, result⟩ := by simpa only [bind_eq_ok] using read
    exact Except.ok.inj result ▸ ⟨readName_identifier atOwn, readName_identifier atCallee⟩
  · cases read

theorem readHierarchy_identified {chars : List Char} {home : String} {hops : List Hop}
    (read : readHierarchy chars = .ok (home, hops)) : isIdentifier home = true ∧ HopsIdentified hops := by
  unfold readHierarchy at read
  split at read
  · cases read
  · obtain ⟨name, atName, found, atHops, result⟩ := by simpa only [bind_eq_ok] using read
    obtain ⟨rfl, rfl⟩ := Prod.mk.inj (Except.ok.inj result)
    refine ⟨readName_identifier atName, fun hop inside => ?_⟩
    obtain ⟨part, -, here⟩ := exists_of_mem_right (mapM_eq_ok.mp atHops) inside
    exact readHop_identified here

theorem readReference_identified {chars : List Char} {ref : String} {fields : List String}
    (read : readReference chars = .ok (ref, fields)) :
    isIdentifier ref = true ∧ ∀ field ∈ fields, isIdentifier field = true := by
  unfold readReference at read
  split at read
  · cases read
  · obtain ⟨name, atName, found, atFields, result⟩ := by simpa only [bind_eq_ok] using read
    obtain ⟨rfl, rfl⟩ := Prod.mk.inj (Except.ok.inj result)
    exact ⟨readName_identifier atName, readNames_identified atFields⟩

theorem ofHierarchy_identified {name home : String} {hops : List Hop} (nameOk : isIdentifier name = true)
    (homeOk : isIdentifier home = true) (hopsOk : HopsIdentified hops) :
    (ofHierarchy name home hops).Identified := by
  have module : (Target.module ⟨name, home⟩).Identified := identified_module.mpr ⟨nameOk, homeOk⟩
  unfold ofHierarchy
  split
  · exact module
  · rename_i last isLast
    have early : HopsIdentified hops.dropLast := fun hop inside =>
      hopsOk hop (List.mem_of_mem_dropLast inside)
    exact identified_inst.mpr ⟨module, early, hopsOk last (List.mem_of_getLast? isLast)⟩

/-- Whatever is read as a target is named by identifiers. -/
theorem readChars_identified {chars : List Char} {target : Target} (read : readChars chars = .ok target) :
    target.Identified := by
  unfold readChars at read
  split at read
  · split at read
    · obtain ⟨name, atName, result⟩ := bind_eq_ok.mp read
      exact Except.ok.inj result ▸ List.forall_mem_singleton.mpr (readName_identifier atName)
    · obtain ⟨name, atName, read⟩ := bind_eq_ok.mp read
      obtain ⟨⟨home, hops⟩, atHome, read⟩ := bind_eq_ok.mp read
      obtain ⟨homeOk, hopsOk⟩ := readHierarchy_identified atHome
      have nameOk := readName_identifier atName
      dsimp only at read
      split at read
      · exact Except.ok.inj read ▸ ofHierarchy_identified nameOk homeOk hopsOk
      · obtain ⟨⟨ref, fields⟩, atRef, result⟩ := bind_eq_ok.mp read
        exact Except.ok.inj result ▸
          identified_reference.mpr
            ⟨identified_module.mpr ⟨nameOk, homeOk⟩, hopsOk, readReference_identified atRef⟩
  · cases read

/-- Whatever is accepted as a target is named by identifiers. -/
theorem parse_identified {text : String} {target : Target} (read : parse text = .ok target) :
    target.Identified := by
  unfold parse at read
  cases found : readChars text.toList with
  | error flaw =>
    rw [found] at read
    cases read
  | ok result =>
    rw [found] at read
    exact Except.ok.inj read ▸ readChars_identified found

end Target

namespace Ledger

variable {ledger result : Ledger}

theorem identified_iff :
    ledger.Identified ↔ (∀ entry ∈ ledger.entries, entry.source.Identified) ∧ ledger.Identifies := by
  refine ⟨fun identified =>
    ⟨fun entry inside => (identified entry inside).1, fun entry inside => (identified entry inside).2⟩, ?_⟩
  exact fun ⟨sources, identifies⟩ entry inside => ⟨sources entry inside, identifies entry inside⟩

theorem Identified.register (identified : ledger.Identified) {source replacement : Target}
    (sourceOk : source.Identified) (replacementOk : replacement.Identified) :
    (ledger.register source replacement).Identified := by
  obtain ⟨sources, identifies⟩ := identified_iff.mp identified
  refine identified_iff.mpr ⟨fun entry inside => ?_, identifies.register _ replacementOk⟩
  unfold Ledger.register at inside
  split at inside
  · obtain ⟨old, member, rfl⟩ := List.mem_map.mp inside
    split <;> exact sources old member
  · rcases List.mem_append.mp inside with old | new
    · exact sources entry old
    · exact List.mem_singleton.mp new ▸ sourceOk

theorem Identified.compose {next : Ledger} (identified : ledger.Identified) (later : next.Identified)
    (composed : ledger.compose next = .ok result) : result.Identified := by
  obtain ⟨sources, identifies⟩ := identified_iff.mp identified
  obtain ⟨others, alsoIdentifies⟩ := identified_iff.mp later
  refine identified_iff.mpr ⟨fun entry inside => ?_, identifies.compose alsoIdentifies composed⟩
  obtain ⟨moved, each, rfl⟩ := compose_eq_ok composed
  rcases List.mem_append.mp inside with old | new
  · obtain ⟨before, member, chases⟩ := exists_of_mem_right each old
    exact chaseEntry_source chases ▸ sources before member
  · exact others entry (List.mem_of_mem_filter new)

/-- A step that keeps a property, taken once for each item, keeps it. -/
theorem foldlM_kept {σ α ε : Type} {f : σ → α → Except ε σ} {P : σ → Prop}
    (step : ∀ {s t a}, P s → f s a = .ok t → P t) {items : List α} {s t : σ} (start : P s)
    (run : items.foldlM f s = .ok t) : P t := by
  induction items generalizing s with
  | nil => exact Except.ok.inj run ▸ start
  | cons a rest ih =>
    rw [List.foldlM_cons] at run
    obtain ⟨next, here, later⟩ := bind_eq_ok.mp run
    exact ih (step start here) later

/-- After any field that is accepted each entry is there once and is named by identifiers. -/
theorem registerField_kept (legible : ledger.Keyed ∧ ledger.Identified) {field : String × Json}
    (read : ledger.registerField field = .ok result) : result.Keyed ∧ result.Identified := by
  unfold registerField at read
  dsimp only at read
  split at read
  · cases read
  · obtain ⟨source, atSource, read⟩ := bind_eq_ok.mp read
    refine foldlM_kept (P := fun ledger => ledger.Keyed ∧ ledger.Identified)
      (fun {ledger next text} ⟨keyed, identified⟩ step => ?_)
      legible read
    obtain ⟨target, atTarget, result⟩ := bind_eq_ok.mp step
    rw [← Except.ok.inj result]
    exact ⟨keyed.register _ _,
      identified.register (Target.parse_identified atSource) (Target.parse_identified atTarget)⟩

/-- Whatever is read as a ledger is named by identifiers, and each entry is there once. -/
theorem ofJson_kept {value : Json} (read : ofJson value = .ok result) : result.Keyed ∧ result.Identified := by
  unfold ofJson at read
  split at read
  · exact foldlM_kept (P := fun ledger => ledger.Keyed ∧ ledger.Identified)
      (fun kept step => registerField_kept kept step)
      ⟨keyed_empty, List.forall_mem_nil _⟩ read
  · cases read

/-- The fields of a written ledger stay where they are. -/
theorem toJson_regular (keyed : ledger.Keyed) {admits : Number → Prop} :
    ledger.toJson.Regular Json.Apart admits := by
  rw [toJson_eq]
  have keys : (ledger.sorted.entries.map Entry.field).map Prod.fst = ledger.sorted.entries.map Entry.key := by
    rw [List.map_map]
    rfl
  have tilde (target : Target) : '~' ∈ target.text.toList := by
    rw [Target.text, String.toList_ofList]
    cases target <;> exact List.mem_cons_self
  refine ⟨?_, Json.regularFields_iff.mpr
    (List.forall_mem_map.mpr fun entry _ => Interchange.strings_regular _)⟩
  rw [keys]
  refine ⟨(keyed.perm ledger.sorted_perm.symm).keys, List.forall_mem_map.mpr fun entry _ => ?_⟩
  exact Json.listPosition?_eq_none (tilde entry.source) rfl

/-- The written form is read as a ledger with the same entries just when all names are identifiers. -/
theorem restored_iff (keyed : ledger.Keyed) :
    (∃ other, ofJson ledger.toJson = .ok other ∧ other.entries.Perm ledger.entries) ↔ ledger.Identified := by
  constructor
  · rintro ⟨other, read, same⟩
    exact fun entry inside => (ofJson_kept read).2 entry (same.mem_iff.mpr inside)
  · exact fun identified => ⟨ledger.sorted, ofJson_toJson keyed identified, ledger.sorted_perm⟩

end Ledger

end CircuitNames
