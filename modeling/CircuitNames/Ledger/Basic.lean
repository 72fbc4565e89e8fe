import CircuitNames.Target.Text

namespace CircuitNames

namespace Ledger

/-- What one target has become. -/
structure Entry where
  source : Target
  replacements : List Target
deriving DecidableEq, Repr

/-- Entries are found by the text of their source. -/
def Entry.key (entry : Entry) : String := entry.source.text

end Ledger

/-- Which targets became which others. The entries stay in the order in which they were first registered. -/
structure Ledger where
  entries : List Ledger.Entry
deriving DecidableEq, Repr

namespace Ledger

def empty : Ledger := ⟨[]⟩

instance : Inhabited Ledger := ⟨empty⟩

def size (ledger : Ledger) : Nat := ledger.entries.length

/-- The entry of exactly this target. -/
def find? (ledger : Ledger) (target : Target) : Option Entry :=
  ledger.entries.find? (·.key == target.text)

def contains (ledger : Ledger) (target : Target) : Bool := (ledger.find? target).isSome

/-- All replacements recorded for a target. -/
def get? (ledger : Ledger) (target : Target) : Option (List Target) :=
  (ledger.find? target).map Entry.replacements

/-- The replacement of a target that has exactly one. -/
def resolve? (ledger : Ledger) (target : Target) : Option Target :=
  match ledger.get? target with
  | some [replacement] => some replacement
  | _ => none

/-- Targets with one text share their entry. -/
theorem find?_congr (ledger : Ledger) {target other : Target} (same : target.text = other.text) :
    ledger.find? target = ledger.find? other := by
  simp only [find?, same]

/-- Adds a replacement to those there are, unless one with the same text is among them. -/
def addReplacement (known : List Target) (target : Target) : List Target :=
  if known.any (·.text == target.text) then known else known ++ [target]

/-- Records a replacement: a new source gets an entry at the end, a known one another replacement. -/
def register (ledger : Ledger) (source replacement : Target) : Ledger :=
  if ledger.contains source then
    ⟨ledger.entries.map fun entry =>
      if entry.key = source.text then
        { entry with replacements := addReplacement entry.replacements replacement }
      else entry⟩
  else ⟨ledger.entries ++ [⟨source, [replacement]⟩]⟩

/-- A registered replacement is found under its source, after those found there before; what is found
under other sources stays. -/
theorem get?_register (ledger : Ledger) (source replacement target : Target) :
    (ledger.register source replacement).get? target =
      if target.text = source.text then
        some (addReplacement ((ledger.get? source).getD []) replacement)
      else ledger.get? target := by
  unfold register
  split
  next known =>
    let moved (entry : Entry) : Entry :=
      if entry.key = source.text then
        { entry with replacements := addReplacement entry.replacements replacement }
      else entry
    have keys (entry : Entry) : (moved entry).key = entry.key := by
      simp only [moved]
      split <;> rfl
    have found : (Ledger.mk (ledger.entries.map moved)).find? target =
        (ledger.find? target).map moved := by
      simp only [find?, List.find?_map, Function.comp_def, keys]
    change ((Ledger.mk (ledger.entries.map moved)).find? target).map Entry.replacements = _
    rw [found]
    by_cases same : target.text = source.text
    · obtain ⟨entry, here⟩ := Option.isSome_iff_exists.1 known
      have key : entry.key = source.text := by simpa using List.find?_some here
      simp [get?, find?_congr ledger same, same, here, moved, key]
    · simp only [get?, same, if_false]
      cases here : ledger.find? target with
      | none => rfl
      | some entry =>
        have key : entry.key = target.text := by simpa using List.find?_some here
        simp [moved, key, same]
  next unknown =>
    have absent : ledger.find? source = none := by simpa [contains] using unknown
    by_cases same : target.text = source.text
    · simp only [find?, Entry.key] at absent
      simp [get?, find?, List.find?_append, absent, same, Entry.key, addReplacement]
    · have other : source.text ≠ target.text := fun h => same h.symm
      simp [get?, find?, List.find?_append, same, other, Entry.key]

end Ledger

end CircuitNames
