import CircuitNames.Proofs.LedgerStores
import CircuitNames.Proofs.WrittenResults

namespace CircuitNames

namespace Collation
open Std

/-- The order of printable texts. The weights of the characters are compared first, one after the other over
the whole texts, and a text stands before those it begins. Where all weights are the same, the first place
where the texts differ decides: one has a letter in lower case there and stands before the other, which has it
in upper case. -/
inductive Precedes (s t : String) : Prop
  | weight (less : s.toList.map weight < t.toList.map weight)
  | case (same : s.toList.map weight = t.toList.map weight) {front low high : List Char} {lower upper : Char}
      (first : s.toList = front ++ lower :: low) (second : t.toList = front ++ upper :: high)
      (isLower : lower.isUpper = false) (isUpper : upper.isUpper = true)

theorem compareLex_eq_lt_iff {xs ys : List Nat} : List.compareLex Ord.compare xs ys = .lt ↔ xs < ys := by
  induction xs generalizing ys with
  | nil => cases ys <;> simp [List.compareLex]
  | cons x rest ih =>
    cases ys with
    | nil => simp [List.compareLex]
    | cons y more =>
      rw [List.compareLex_cons_cons, List.cons_lt_cons_iff, ← ih, Ordering.then_eq_lt, Nat.compare_eq_lt,
        Nat.compare_eq_eq]

theorem caseRank_lt_iff {c d : Char} : caseRank c < caseRank d ↔ c.isUpper = false ∧ d.isUpper = true := by
  unfold caseRank
  cases c.isUpper <;> cases d.isUpper <;> simp

/-- Texts of the same weights stand in the order of their first difference. -/
theorem caseRanks_lt_iff {first second : List Char} (printable : ∀ c ∈ first, IsPrintable c)
    (alsoPrintable : ∀ c ∈ second, IsPrintable c) (weights : first.map weight = second.map weight) :
    first.map caseRank < second.map caseRank ↔ ∃ front low high lower upper, first = front ++ lower :: low ∧
      second = front ++ upper :: high ∧ lower.isUpper = false ∧ upper.isUpper = true := by
  induction first generalizing second with
  | nil =>
    obtain rfl := List.map_eq_nil_iff.mp weights.symm
    simp
  | cons c rest ih =>
    cases second with
    | nil => cases weights
    | cons d more =>
      obtain ⟨here, later⟩ := List.forall_mem_cons.mp printable
      obtain ⟨alsoHere, alsoLater⟩ := List.forall_mem_cons.mp alsoPrintable
      obtain ⟨weight, weights⟩ := List.cons.inj weights
      rw [List.map_cons, List.map_cons, List.cons_lt_cons_iff, ih later alsoLater weights, caseRank_lt_iff]
      constructor
      · rintro (⟨isLower, isUpper⟩ | ⟨ranks, front, low, high, lower, upper, rfl, rfl, isLower, isUpper⟩)
        · exact ⟨[], rest, more, c, d, rfl, rfl, isLower, isUpper⟩
        · obtain rfl := char_eq here alsoHere weight ranks
          exact ⟨c :: front, low, high, lower, upper, rfl, rfl, isLower, isUpper⟩
      · rintro ⟨_ | ⟨e, front⟩, low, high, lower, upper, first, second, isLower, isUpper⟩
        · obtain ⟨rfl, -⟩ := List.cons.inj first
          obtain ⟨rfl, -⟩ := List.cons.inj second
          exact Or.inl ⟨isLower, isUpper⟩
        · obtain ⟨rfl, inRest⟩ := List.cons.inj first
          obtain ⟨rfl, inMore⟩ := List.cons.inj second
          exact Or.inr ⟨rfl, front, low, high, lower, upper, inRest, inMore, isLower, isUpper⟩

section Printable
variable {s t : String} (printable : ∀ c ∈ s.toList, IsPrintable c)
  (alsoPrintable : ∀ c ∈ t.toList, IsPrintable c)
include printable alsoPrintable

/-- The order that texts are sorted by says `lt` exactly where `Precedes` holds. -/
theorem compare_eq_lt_iff : compare s t = .lt ↔ Precedes s t := by
  rw [compare, Ordering.then_eq_lt, weighed_eq printable, weighed_eq alsoPrintable, compareLex_eq_lt_iff,
    compareLex_eq_lt_iff]
  constructor
  · rintro (less | ⟨same, ranks⟩)
    · exact .weight less
    · have same : s.toList.map weight = t.toList.map weight := by simpa using same
      obtain ⟨front, low, high, lower, upper, first, second, isLower, isUpper⟩ :=
        (caseRanks_lt_iff printable alsoPrintable same).mp ranks
      exact .case same first second isLower isUpper
  · rintro (less | ⟨same, first, second, isLower, isUpper⟩)
    · exact Or.inl less
    · exact Or.inr ⟨by simpa using same, (caseRanks_lt_iff printable alsoPrintable same).mpr
        ⟨_, _, _, _, _, first, second, isLower, isUpper⟩⟩

omit printable alsoPrintable in
theorem compare_swap : compare t s = (compare s t).swap := OrientedCmp.eq_swap

end Printable

/-- The texts that the order of keys is total on: any two of them are told apart. -/
abbrev PrintableText := {s : String // ∀ c ∈ s.toList, IsPrintable c}

/-- Case is passed over at first, but in the end any two printable texts are told apart. -/
instance strictOrder : IsStrictTotalOrder PrintableText fun s t => Precedes s.1 t.1 where
  irrefl s before := by
    have equal : compare s.1 s.1 = .eq := ReflCmp.compare_self
    rw [← compare_eq_lt_iff s.2 s.2, equal] at before
    cases before
  trans s t u first second := by
    rw [← compare_eq_lt_iff s.2 t.2] at first
    rw [← compare_eq_lt_iff t.2 u.2] at second
    exact (compare_eq_lt_iff s.2 u.2).mp (TransCmp.lt_trans first second)
  trichotomous s t notBefore notAfter := by
    rw [← compare_eq_lt_iff s.2 t.2] at notBefore
    rw [← compare_eq_lt_iff t.2 s.2, compare_swap, Ordering.swap_eq_lt] at notAfter
    have same : compare s.1 t.1 = .eq := by
      cases order : compare s.1 t.1 with
      | lt => exact absurd order notBefore
      | eq => rfl
      | gt => exact absurd order notAfter
    have before : le s.1 t.1 = true := by rw [le, same]; rfl
    have after : le t.1 s.1 = true := by rw [le, compare_swap, same]; rfl
    exact Subtype.ext (le_antisymm s.2 t.2 before after)

/-- Of two different texts in order the first stands before the second. -/
theorem precedes_of_le {s t : PrintableText} (before : le s.1 t.1 = true) (apart : s ≠ t) :
    Precedes s.1 t.1 := by
  have notAfter : ¬ Precedes t.1 s.1 := by
    intro after
    rw [le, compare_swap, (compare_eq_lt_iff t.2 s.2).mpr after] at before
    cases before
  exact Classical.not_not.mp fun notBefore => apart (strictOrder.trichotomous s t notBefore notAfter)

end Collation

namespace Ledger

variable {ledger other : Ledger}

/-- An entry is found again in any ledger in which the same is found. -/
theorem mem_of_get?_eq (keyed : ledger.Keyed) (identified : ledger.Identified)
    (alsoIdentified : other.Identified) (same : ∀ target, ledger.get? target = other.get? target)
    {entry : Entry} (inside : entry ∈ ledger.entries) :
    entry ∈ other.entries := by
  have here : ledger.find? entry.source = some entry := keyed.find?_eq_some_iff.mpr ⟨inside, rfl⟩
  have found : other.get? entry.source = some entry.replacements := by
    rw [← same, get?, here, Option.map_some]
  obtain ⟨twin, there, replacements⟩ := Option.map_eq_some_iff.mp found
  have member := List.mem_of_find?_eq_some there
  have key : twin.source.text = entry.source.text := by simpa [Entry.key] using List.find?_some there
  have source : twin.source = entry.source :=
    Target.eq_of_text_eq (alsoIdentified twin member).1 (identified entry inside).1 key
  have equal : twin = entry := by
    cases twin
    cases entry
    cases source
    cases replacements
    rfl
  exact equal ▸ member

/-- Ledgers in which the same is found have the same entries, in some order. -/
theorem perm_of_get?_eq (keyed : ledger.Keyed) (alsoKeyed : other.Keyed) (identified : ledger.Identified)
    (alsoIdentified : other.Identified) (same : ∀ target, ledger.get? target = other.get? target) :
    ledger.entries.Perm other.entries := by
  refine (List.perm_ext_iff_of_nodup keyed.keys.of_map alsoKeyed.keys.of_map).mpr fun entry => ⟨?_, ?_⟩
  · exact mem_of_get?_eq keyed identified alsoIdentified same
  · exact mem_of_get?_eq alsoKeyed alsoIdentified identified fun target => (same target).symm

theorem Identified.key_printable (identified : ledger.Identified) {entry : Entry}
    (inside : entry ∈ ledger.sorted.entries) :
    ∀ c ∈ entry.key.toList, Collation.IsPrintable c :=
  (identified entry (ledger.sorted_perm.mem_iff.mp inside)).1.printable

theorem keys_pairwise (keyed : ledger.Keyed) (identified : ledger.Identified) :
    (ledger.pairs.map Prod.fst).Pairwise Collation.Precedes := by
  have distinct : (ledger.sorted.entries.map Entry.key).Nodup := (keyed.perm ledger.sorted_perm.symm).keys
  have keys : ledger.pairs.map Prod.fst = ledger.sorted.entries.map Entry.key := by
    rw [pairs_eq, List.map_map]
    rfl
  rw [keys, List.pairwise_map]
  refine (ledger.sorted_pairwise.and (List.pairwise_map.mp distinct)).imp_of_mem
    fun inside alsoInside ordered => ?_
  exact Collation.precedes_of_le (s := ⟨_, identified.key_printable inside⟩)
    (t := ⟨_, identified.key_printable alsoInside⟩)
    ordered.1 fun same => ordered.2 (congrArg Subtype.val same)

/-- A key is written with a list of texts just when an entry with that source has those replacements. -/
theorem mem_pairs_iff (keyed : ledger.Keyed) {key : String} {texts : List String} :
    (key, texts) ∈ ledger.pairs ↔
    ∃ source replacements, source.text = key ∧ ledger.get? source = some replacements ∧
      replacements.map Target.text = texts := by
  rw [pairs_eq, List.mem_map]
  constructor
  · rintro ⟨entry, inside, same⟩
    obtain ⟨key, texts⟩ := Prod.mk.inj same
    have here : ledger.find? entry.source = some entry :=
      keyed.find?_eq_some_iff.mpr ⟨ledger.sorted_perm.mem_iff.mp inside, rfl⟩
    exact ⟨entry.source, entry.replacements, key, by rw [get?, here, Option.map_some], texts⟩
  · rintro ⟨source, replacements, rfl, found, rfl⟩
    obtain ⟨entry, here, rfl⟩ := Option.map_eq_some_iff.mp found
    obtain ⟨inside, key⟩ := keyed.find?_eq_some_iff.mp here
    exact ⟨entry, ledger.sorted_perm.mem_iff.mpr inside, by rw [key]⟩

/-- What a ledger is written as: its keys in the strict order of their texts, each with the texts of what is
found under it. -/
theorem toJson_fields (keyed : ledger.Keyed) (identified : ledger.Identified) :
    ∃ fields, ledger.toJson = .object fields ∧ (fields.map Prod.fst).Pairwise Collation.Precedes ∧
      ∀ key value, (key, value) ∈ fields ↔ ∃ source replacements, source.text = key ∧
        ledger.get? source = some replacements ∧
        value = .array (replacements.map fun target => .string target.text) := by
  refine ⟨_, rfl, ?_, fun key value => ?_⟩
  · rw [List.map_map]
    exact keys_pairwise keyed identified
  · rw [List.mem_map]
    constructor
    · rintro ⟨⟨_, texts⟩, inside, same⟩
      obtain ⟨rfl, rfl⟩ := Prod.mk.inj same
      obtain ⟨source, replacements, sourceText, found, rfl⟩ := (mem_pairs_iff keyed).mp inside
      exact ⟨source, replacements, sourceText, found, by simp only [List.map_map, Function.comp_def]⟩
    · rintro ⟨source, replacements, sourceText, found, rfl⟩
      have inside := (mem_pairs_iff keyed).mpr ⟨source, replacements, sourceText, found, rfl⟩
      exact ⟨_, inside, by simp only [List.map_map, Function.comp_def]⟩

end Ledger

/-- The ledger that a run of the command leaves has each key once. -/
theorem RenameCommand.run_keyed {dir : Path} {argv : List String} {session after : Session} {report : Report}
    (run : RenameCommand.run dir argv session = (.ok report, after)) : report.ledger.Keyed := by
  obtain ⟨_, _, _, value, circuit, _, -, -, atLedger, -, decoded, ran, -⟩ := run_eq_ok run
  have decodes : circuit.Decoded := ⟨value, mapError_eq_ok.mp decoded⟩
  exact (runPasses_formed decodes.formed (startLedger_kept atLedger).2.1 ran).2

namespace Ledger

variable {ledger other : Ledger}

/-- The written form is canonical. Two ledgers that any operations have left, on whatever other ledgers beside
them and in whatever order, are written with the same fields if their names are identifiers and the same
replacements are found in them for each target. The keys of these fields stand in the strict order of their
texts. They are the keys of the ledger, each with the texts of its replacements in their order. So the written
form is one text too, and a run of the command that ends with such a ledger writes this text to the file it
was given. -/
theorem toJson_canonical {ops otherOps : List Operation} (made : ledger ∈ history ops)
    (alsoMade : other ∈ history otherOps) (identified : ledger.Identified) (alsoIdentified : other.Identified)
    (same : ∀ target, ledger.get? target = other.get? target) :
    (∃ fields, ledger.toJson = .object fields ∧ other.toJson = .object fields ∧
      (fields.map Prod.fst).Pairwise Collation.Precedes ∧
      ∀ key value, (key, value) ∈ fields ↔ ∃ source replacements, source.text = key ∧
        ledger.get? source = some replacements ∧
        value = .array (replacements.map fun target => .string target.text)) ∧
    other.toJson.fileText = ledger.toJson.fileText ∧
    ∀ dir argv arguments path session report after, Arguments.read dir argv = .ok arguments →
      arguments.renames = some path → RenameCommand.run dir argv session = (.ok report, after) →
      report.ledger.Identified → (∀ target, ledger.get? target = report.ledger.get? target) →
      after.files.find? path = some (.file ledger.toJson.fileText) := by
  have keyed := history_keyed ops ledger made
  -- Nothing else has to be known of a ledger than that it has each key once.
  have written {twin : Ledger} (twinKeyed : twin.Keyed) (twinIdentified : twin.Identified)
      (twinSame : ∀ target, ledger.get? target = twin.get? target) : twin.toJson = ledger.toJson := by
    have entries := perm_of_get?_eq keyed twinKeyed identified twinIdentified twinSame
    rw [toJson_eq, toJson_eq, sorted_eq_of_perm keyed identified entries]
  have alike := written (history_keyed otherOps other alsoMade) alsoIdentified same
  obtain ⟨fields, form, ordered, each⟩ := toJson_fields keyed identified
  refine ⟨⟨fields, form, alike.trans form, ordered, each⟩, by rw [alike], ?_⟩
  intro dir argv arguments path session report after asked isRenames run reportIdentified reportSame
  obtain ⟨_, _, _, _, _, _, alsoAsked, -, -, -, -, -, -, -, atRenames⟩ := RenameCommand.run_eq_ok run
  obtain rfl := Except.ok.inj (asked.symm.trans alsoAsked)
  rw [atRenames path isRenames, written (RenameCommand.run_keyed run) reportIdentified reportSame]

namespace Sample

def port (module name : String) : Target := .reference ⟨"T", module, [], name, []⟩

/-- Two keys that differ in case only, in the order of their registration. -/
def registered : Ledger := ⟨[⟨port "A" "a", [port "A" "b"]⟩, ⟨port "a" "A", [port "a" "b"]⟩]⟩

def loaded : Ledger := ⟨[⟨port "a" "A", [port "a" "b"]⟩, ⟨port "A" "a", [port "A" "b"]⟩]⟩

def registering : List Operation :=
  [.create, .register 0 (port "A" "a") (port "A" "b"), .register 0 (port "a" "A") (port "a" "b")]

def written : Json := .object [("~T|a>A", .array [.string "~T|a>b"]), ("~T|A>a", .array [.string "~T|A>b"])]

theorem identified : loaded.Identified :=
  (ofJson_kept (toOption_eq_some.mp (by decide +kernel : (ofJson written).toOption = _))).2

theorem order : registered.entries.Perm loaded.entries := List.Perm.swap ..

end Sample

open Sample in
theorem toJson_canonical_sample : registered ∈ history registering ∧ loaded ∈ history [.load written] ∧
    registered.entries ≠ loaded.entries ∧ Collation.Precedes "~T|a>A" "~T|A>a" ∧
    ∃ fields, registered.toJson = .object fields ∧ loaded.toJson = .object fields ∧
      (fields.map Prod.fst).Pairwise Collation.Precedes ∧ ("~T|A>a", .array [.string "~T|A>b"]) ∈ fields := by
  have made : registered ∈ history registering := by decide +kernel
  have alsoMade : loaded ∈ history [.load written] := by decide +kernel
  have alsoIdentified : registered.Identified := fun entry inside =>
    identified entry (order.mem_iff.mp inside)
  have found (target : Target) : registered.get? target = loaded.get? target := by
    rw [get?, get?, (history_keyed registering registered made).find?_perm order]
  obtain ⟨⟨fields, form, alsoForm, ordered, each⟩, -⟩ :=
    toJson_canonical made alsoMade alsoIdentified identified found
  have before : Collation.Precedes "~T|a>A" "~T|A>a" :=
    .case (by decide +kernel) (show _ = "~T|".toList ++ 'a' :: ">A".toList by decide +kernel)
      (show _ = "~T|".toList ++ 'A' :: ">a".toList by decide +kernel) rfl rfl
  have key : (port "A" "a").text = "~T|A>a" := by decide +kernel
  have get : registered.get? (port "A" "a") = some [port "A" "b"] := by decide +kernel
  have text : (port "A" "b").text = "~T|A>b" := by decide +kernel
  have inside := (each _ _).mpr ⟨_, _, key, get, by rw [List.map_singleton, text]⟩
  exact ⟨made, alsoMade, by decide, before, fields, form, alsoForm, ordered, inside⟩

end Ledger

end CircuitNames
