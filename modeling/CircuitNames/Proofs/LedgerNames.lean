import CircuitNames.Ledger.Track
import CircuitNames.Proofs.TargetText
import CircuitNames.Rename.Sweep

namespace CircuitNames.Ledger

/-- The name a target has by a ledger: that of its single replacement, otherwise its own. -/
def name (ledger : Ledger) (target : Target) : String :=
  ((ledger.resolve? target).map Target.terminalName).getD target.terminalName

/-- A ledger in the form in which passes record renames: each source is named by identifiers and has
one replacement, which differs from it in the terminal name only. -/
structure Plain (ledger : Ledger) : Prop where
  identified : ∀ entry ∈ ledger.entries, entry.source.Identified
  single : ∀ entry ∈ ledger.entries, ∃ name, entry.replacements = [entry.source.withTerminalName name]

theorem plain_empty : Plain .empty := ⟨by simp [empty], by simp [empty]⟩

variable {ledger : Ledger} {source target : Target}

theorem get?_eq_none_iff : ledger.get? target = none ↔ ledger.contains target = false := by
  cases found : ledger.find? target <;> simp [get?, contains, found]

theorem contains_congr {other : Target} (same : target.text = other.text) :
    ledger.contains target = ledger.contains other := by
  rw [contains, contains, ledger.find?_congr same]

theorem resolve?_of_not_contains (absent : ledger.contains target = false) :
    ledger.resolve? target = none := by
  rw [resolve?, get?_eq_none_iff.mpr absent]

theorem name_of_not_contains (absent : ledger.contains target = false) :
    ledger.name target = target.terminalName := by
  simp [name, resolve?_of_not_contains absent]

/-- What is found in a plain ledger is the entry of the very target asked for. -/
theorem Plain.source_eq (plain : ledger.Plain) (names : target.Identified) {entry : Entry}
    (found : ledger.find? target = some entry) : entry.source = target := by
  have same : entry.source.text = target.text := by simpa [Entry.key] using List.find?_some found
  exact Target.eq_of_text_eq (plain.identified entry (List.mem_of_find?_eq_some found)) names same

theorem Plain.get?_eq (plain : ledger.Plain) (names : target.Identified)
    (recorded : ledger.contains target = true) :
    ledger.get? target = some [target.withTerminalName (ledger.name target)] := by
  obtain ⟨entry, found⟩ := Option.isSome_iff_exists.mp recorded
  obtain ⟨fresh, single⟩ := plain.single entry (List.mem_of_find?_eq_some found)
  have same := plain.source_eq names found
  have gets : ledger.get? target = some [target.withTerminalName fresh] := by
    simp [get?, found, single, same]
  simp [name, resolve?, gets]

/-- A plain ledger replaces a target it records by the same target with another last name. -/
theorem Plain.resolve?_eq (plain : ledger.Plain) (names : target.Identified)
    (recorded : ledger.contains target = true) :
    ledger.resolve? target = some (target.withTerminalName (ledger.name target)) := by
  rw [resolve?, plain.get?_eq names recorded]

/-- In a plain ledger no component changes its kind, so every name is found. -/
theorem Plain.nameOf_eq (plain : ledger.Plain) (names : target.Identified) :
    ledger.nameOf target = .ok (ledger.name target) := by
  cases recorded : ledger.contains target with
  | false => simp [nameOf, resolve?_of_not_contains recorded, name_of_not_contains recorded]
  | true => simp [nameOf, plain.resolve?_eq names recorded]

theorem get?_register_of_ne {other replacement : Target} (apart : target.text ≠ other.text) :
    (ledger.register other replacement).get? target = ledger.get? target := by
  rw [get?_register, if_neg apart]

theorem name_register_self {fresh : String} (absent : ledger.contains source = false) :
    (ledger.register source (source.withTerminalName fresh)).name source = fresh := by
  have resolved : (ledger.register source (source.withTerminalName fresh)).resolve? source =
      some (source.withTerminalName fresh) := by
    rw [resolve?, get?_register, if_pos rfl, get?_eq_none_iff.mpr absent]
    rfl
  simp [name, resolved]

theorem entries_register_new {replacement : Target} (absent : ledger.contains source = false) :
    (ledger.register source replacement).entries = ledger.entries ++ [⟨source, [replacement]⟩] := by
  simp [register, absent]

theorem Plain.register (plain : ledger.Plain) (names : source.Identified)
    (absent : ledger.contains source = false) (fresh : String) :
    (ledger.register source (source.withTerminalName fresh)).Plain := by
  constructor
  · intro entry member
    rw [entries_register_new absent] at member
    rcases List.mem_append.mp member with old | new
    · exact plain.identified entry old
    · exact List.mem_singleton.mp new ▸ names
  · intro entry member
    rw [entries_register_new absent] at member
    rcases List.mem_append.mp member with old | new
    · exact plain.single entry old
    · exact ⟨fresh, by rw [List.mem_singleton.mp new]⟩

end CircuitNames.Ledger

namespace CircuitNames

/-- While the renames are plain, a name asked for during a sweep is the one recorded, or its own. -/
theorem Sweep.nameOf_eq {sweep : Sweep} {target : Target} (plain : sweep.renames.Plain)
    (names : target.Identified) :
    sweep.nameOf target.terminalName target = .ok (sweep.renames.name target) := by
  cases recorded : sweep.renames.contains target with
  | false => simp [nameOf, Ledger.resolve?_of_not_contains recorded, Ledger.name_of_not_contains recorded]
  | true => simp [nameOf, plain.resolve?_eq names recorded]

end CircuitNames
