import CircuitNames.Ledger.Form
import CircuitNames.Proofs.KeyedLedgers
import CircuitNames.Proofs.IdentifierNames

namespace CircuitNames

namespace Collation
open Std

/-- The weights that texts are compared by first. -/
def weights (s : String) : List Nat := (weighed s).map weight

/-- What decides between texts of the same weights: small letters come before capitals. -/
def caseRanks (s : String) : List Nat := (weighed s).map caseRank

/-- The comparison is lexicographic, first by weights and then by case. -/
theorem compare_eq : compare = compareLex (compareOn weights) (compareOn caseRanks) := rfl

instance : TransCmp compare := by
  rw [compare_eq]
  infer_instance

theorem le_trans (s t u : String) (first : le s t = true) (second : le t u = true) : le s u = true :=
  TransCmp.isLE_trans first second

theorem le_total (s t : String) : (le s t || le t s) = true := by
  have swapped : compare t s = (compare s t).swap := OrientedCmp.eq_swap
  rw [le, le, swapped]
  cases compare s t <;> rfl

/-- The printable characters of ASCII. -/
def IsPrintable (c : Char) : Prop := 32 ≤ c.toNat ∧ c.toNat < 127

/-- Weight and case together tell printable characters apart. -/
theorem char_eq {c d : Char} (printable : IsPrintable c) (alsoPrintable : IsPrintable d)
    (weights : weight c = weight d) (ranks : caseRank c = caseRank d) : c = d := by
  have distinct :
      ((List.range' 32 95).map fun code => (weight (Char.ofNat code), caseRank (Char.ofNat code))).Nodup := by
    decide +kernel
  have inRange {c : Char} (printable : IsPrintable c) : c.toNat ∈ List.range' 32 95 := by
    simp only [IsPrintable] at printable
    simp only [List.mem_range'_1]
    omega
  have codes := List.inj_on_of_nodup_map distinct (inRange printable) (inRange alsoPrintable)
    (by simp [Char.ofNat_toNat, weights, ranks])
  rw [← Char.ofNat_toNat c, codes, Char.ofNat_toNat]

/-- Printable characters with the same weights and cases are the same. -/
theorem chars_eq {first second : List Char} (printable : ∀ c ∈ first, IsPrintable c)
    (alsoPrintable : ∀ c ∈ second, IsPrintable c) (weights : first.map weight = second.map weight)
    (ranks : first.map caseRank = second.map caseRank) : first = second := by
  induction first generalizing second with
  | nil => exact (List.map_eq_nil_iff.mp weights.symm).symm
  | cons c rest ih =>
    cases second with
    | nil => cases weights
    | cons d more =>
      obtain ⟨here, later⟩ := List.forall_mem_cons.mp printable
      obtain ⟨alsoHere, alsoLater⟩ := List.forall_mem_cons.mp alsoPrintable
      obtain ⟨weight, weights⟩ := List.cons.inj weights
      obtain ⟨rank, ranks⟩ := List.cons.inj ranks
      rw [char_eq here alsoHere weight rank, ih later alsoLater weights ranks]

/-- All of a printable text counts. -/
theorem weighed_eq {s : String} (printable : ∀ c ∈ s.toList, IsPrintable c) : weighed s = s.toList := by
  refine List.filter_eq_self.mpr fun c inside => ?_
  obtain ⟨low, high⟩ := printable c inside
  have notLow : ¬ c.toNat < 0x20 := by omega
  have notHigh : ¬ 0x7F ≤ c.toNat := by omega
  simp [isWeightless, notLow, notHigh]

/-- Of printable texts none stands both before and after another one. -/
theorem le_antisymm {s t : String} (printable : ∀ c ∈ s.toList, IsPrintable c)
    (alsoPrintable : ∀ c ∈ t.toList, IsPrintable c) (first : le s t = true) (second : le t s = true) :
    s = t := by
  have same := OrientedCmp.isLE_antisymm first second
  rw [compare_eq, compareLex_eq_eq] at same
  obtain ⟨weights, ranks⟩ : weights s = weights t ∧ caseRanks s = caseRanks t := by
    simpa [compareOn] using same
  simp only [Collation.weights, caseRanks, weighed_eq printable, weighed_eq alsoPrintable] at weights ranks
  exact String.toList_injective (chars_eq printable alsoPrintable weights ranks)

end Collation

namespace Target

theorem mem_chars {target : Target} {c : Char} (inside : c ∈ target.chars) :
    c ∈ marks ∨ ∃ name ∈ target.names, c ∈ name.toList := by
  cases target <;>
    simp only [chars, ModuleTarget.chars, InstanceTarget.chars, ReferenceTarget.chars, Hop.chars, names,
      marks, List.mem_cons, List.mem_append, List.mem_flatMap, List.not_mem_nil] at inside ⊢ <;> grind

/-- The texts of targets are printable, so that their order is total. -/
theorem Identified.printable {target : Target} (names : target.Identified) :
    ∀ c ∈ target.text.toList, Collation.IsPrintable c := by
  intro c inside
  rw [text, String.toList_ofList] at inside
  rcases mem_chars inside with mark | ⟨name, isName, inName⟩
  · have each : ∀ c ∈ marks, 32 ≤ c.toNat ∧ c.toNat < 127 := by
      simp only [marks, List.mem_cons, List.not_mem_nil, or_false, forall_eq_or_imp, forall_eq]
      decide
    exact each c mark
  · have tails : ∀ code < 128, Identifier.isTail (Char.ofNat code) = true →
        32 ≤ (Char.ofNat code).toNat ∧ (Char.ofNat code).toNat < 127 := by decide +kernel
    exact Identifier.of_isTail tails (Identifier.isTail_of_mem (names name isName) c inName)

theorem parse_text {target : Target} (names : target.Identified) : parse target.text = .ok target := by
  rw [parse, text, String.toList_ofList, readChars_chars names]
  rfl

end Target

namespace Ledger

variable {ledger other : Ledger}

/-- Every source and every replacement is named by identifiers. -/
def Identified (ledger : Ledger) : Prop :=
  ∀ entry ∈ ledger.entries, entry.source.Identified ∧
    ∀ replacement ∈ entry.replacements, replacement.Identified

def Entry.le (entry other : Entry) : Bool := Collation.le entry.key other.key

/-- The entries in the order of the written form. -/
def sorted (ledger : Ledger) : Ledger := ⟨ledger.entries.mergeSort Entry.le⟩

theorem sorted_perm (ledger : Ledger) : ledger.sorted.entries.Perm ledger.entries := List.mergeSort_perm _ _

/-- An entry as a field of the written form. -/
def Entry.field (entry : Entry) : String × Json :=
  (entry.key, .array ((entry.replacements.map Target.text).map .string))

theorem pairs_eq (ledger : Ledger) :
    ledger.pairs = ledger.sorted.entries.map fun entry =>
      (entry.key, entry.replacements.map Target.text) := by
  symm
  exact List.map_mergeSort fun _ _ _ _ => rfl

theorem toJson_eq (ledger : Ledger) : ledger.toJson = .object (ledger.sorted.entries.map Entry.field) := by
  rw [toJson, pairs_eq, List.map_map]
  rfl

theorem sorted_pairwise (ledger : Ledger) : ledger.sorted.entries.Pairwise fun entry other =>
    entry.le other = true := by
  have trans (a b c : Entry) : a.le b = true → b.le c = true → a.le c = true :=
    Collation.le_trans a.key b.key c.key
  have total (a b : Entry) : (a.le b || b.le a) = true := Collation.le_total a.key b.key
  exact List.pairwise_mergeSort trans total ledger.entries

/-- Where all names are identifiers, the written form does not depend on the order of the entries. -/
theorem sorted_eq_of_perm (keyed : ledger.Keyed) (identified : ledger.Identified)
    (same : ledger.entries.Perm other.entries) :
    other.sorted = ledger.sorted := by
  have perm := (ledger.sorted_perm.trans same).trans other.sorted_perm.symm
  have entries : ledger.sorted.entries = other.sorted.entries := by
    refine perm.eq_of_pairwise (fun first second inside alsoInside before after => ?_) ledger.sorted_pairwise
      other.sorted_pairwise
    have member := ledger.sorted_perm.mem_iff.mp inside
    have alsoMember := same.mem_iff.mpr (other.sorted_perm.mem_iff.mp alsoInside)
    have keys :=
      Collation.le_antisymm (identified first member).1.printable (identified second alsoMember).1.printable
      before after
    exact List.inj_on_of_nodup_map keyed.keys member alsoMember keys
  exact congrArg Ledger.mk entries.symm

/-- Where all names are identifiers the written form is the same for every order of the entries. -/
theorem toJson_perm (keyed : ledger.Keyed) (identified : ledger.Identified)
    (same : ledger.entries.Perm other.entries) :
    other.toJson = ledger.toJson := by
  rw [toJson_eq, toJson_eq, sorted_eq_of_perm keyed identified same]

theorem texts?_strings (texts : List String) : texts? (.array (texts.map .string)) = some texts := by
  induction texts with
  | nil => rfl
  | cons text rest ih =>
    simp only [texts?, List.map_cons, List.mapM_cons] at ih ⊢
    rw [ih]
    rfl

/-- Registers a replacement that is given by its text. -/
def registerText (source : Target) (ledger : Ledger) (text : String) : Except Fault Ledger := do
  return ledger.register source (← Target.parse text)

/-- A source at the end of the entries gets one replacement after the other. -/
theorem registerText_all {source : Target} {entries : List Entry}
    (fresh : source.text ∉ entries.map Entry.key) {done more : List Target}
    (names : ∀ target ∈ more, target.Identified) :
    (more.map Target.text).foldlM (registerText source) ⟨entries ++ [⟨source, done⟩]⟩ =
      .ok ⟨entries ++ [⟨source, more.foldl addReplacement done⟩]⟩ := by
  induction more generalizing done with
  | nil => rfl
  | cons target rest ih =>
    obtain ⟨first, later⟩ := List.forall_mem_cons.mp names
    have apart : ∀ entry ∈ entries, entry.key ≠ source.text := fun entry inside same =>
      fresh (same ▸ List.mem_map_of_mem inside)
    have known : (Ledger.mk (entries ++ [⟨source, done⟩])).contains source = true := by
      simp [contains, find?, Entry.key]
    have step : (Ledger.mk (entries ++ [⟨source, done⟩])).register source target =
        ⟨entries ++ [⟨source, addReplacement done target⟩]⟩ := by
      have kept : (entries.map fun entry => if entry.key = source.text then
          { entry with replacements := addReplacement entry.replacements target } else entry) = entries := by
        refine (List.map_congr_left fun entry inside => ?_).trans (List.map_id _)
        exact if_neg (apart entry inside)
      rw [register, if_pos known, List.map_append, kept]
      simp [Entry.key]
    rw [List.map_cons, List.foldlM_cons]
    exact bind_ok (bind_ok (Target.parse_text first) (congrArg Except.ok step)) (ih later)

/-- The entry that a source gets for a list of replacements; for an empty list it gets none. -/
def entryFor (source : Target) (targets : List Target) : List Entry :=
  if targets = [] then [] else [⟨source, targets.foldl addReplacement []⟩]

/-- A field whose key is new is read as an entry of its own. -/
theorem registerField_listed {entries : List Entry} {source : Target}
    (fresh : source.text ∉ entries.map Entry.key) (sourceOk : source.Identified) {targets : List Target}
    (names : ∀ target ∈ targets, target.Identified) :
    registerField ⟨entries⟩ (source.text, .array ((targets.map Target.text).map .string)) =
      .ok ⟨entries ++ entryFor source targets⟩ := by
  simp only [registerField, texts?_strings]
  refine bind_ok (Target.parse_text sourceOk) ?_
  cases targets with
  | nil => exact congrArg (fun entries => Except.ok (Ledger.mk entries)) (List.append_nil entries).symm
  | cons target rest =>
    obtain ⟨first, later⟩ := List.forall_mem_cons.mp names
    have unknown : (Ledger.mk entries).contains source = false := by
      simpa [contains, find?, Entry.key] using fresh
    have started : (Ledger.mk entries).register source target = ⟨entries ++ [⟨source, [target]⟩]⟩ := by
      simp [register, unknown]
    rw [List.map_cons, List.foldlM_cons]
    exact bind_ok (bind_ok (Target.parse_text first) (congrArg Except.ok started))
      (registerText_all fresh later)

/-- Replacements with texts of their own are all added. -/
theorem foldl_addReplacement_of_nodup {done more : List Target}
    (texts : ((done ++ more).map Target.text).Nodup) :
    more.foldl addReplacement done = done ++ more := by
  induction more generalizing done with
  | nil => exact (List.append_nil done).symm
  | cons target rest ih =>
    have new : addReplacement done target = done ++ [target] := by
      rw [List.map_append, List.nodup_append', List.map_cons] at texts
      refine if_neg fun found => texts.2.2 ?_ List.mem_cons_self
      obtain ⟨other, inside, same⟩ := List.any_eq_true.mp found
      exact List.mem_map.mpr ⟨other, inside, beq_iff_eq.mp same⟩
    have appended : done ++ target :: rest = (done ++ [target]) ++ rest := by simp
    rw [appended] at texts ⊢
    rw [List.foldl_cons, new, ih texts]

/-- A source with replacements as a field of the written form. -/
def listing (listed : Target × List Target) : String × Json :=
  (listed.1.text, .array ((listed.2.map Target.text).map .string))

/-- Fields with keys of their own are read as the entries for them, in their order. -/
theorem registerField_all {done : List Entry} {listed : List (Target × List Target)}
    (keys : (done.map Entry.key ++ listed.map fun item => item.1.text).Nodup)
    (names : ∀ item ∈ listed, item.1.Identified ∧ ∀ target ∈ item.2, target.Identified) :
    (listed.map listing).foldlM registerField ⟨done⟩ =
      .ok ⟨done ++ listed.flatMap fun item => entryFor item.1 item.2⟩ := by
  induction listed generalizing done with
  | nil => simp [pure, Except.pure]
  | cons item rest ih =>
    obtain ⟨source, targets⟩ := item
    obtain ⟨⟨sourceOk, targetsOk⟩, later⟩ := List.forall_mem_cons.mp names
    have fresh : source.text ∉ done.map Entry.key := fun inside =>
      (List.nodup_append'.mp keys).2.2 inside List.mem_cons_self
    have fewer : ((entryFor source targets).map Entry.key).Sublist [source.text] := by
      unfold entryFor
      split
      · exact List.nil_sublist _
      · exact List.Sublist.refl _
    have apart :
        ((done ++ entryFor source targets).map Entry.key ++ rest.map fun item => item.1.text).Nodup := by
      rw [List.map_append, List.append_assoc]
      exact keys.sublist ((fewer.append_right _).append_left _)
    rw [List.map_cons, List.foldlM_cons]
    refine bind_ok (registerField_listed fresh sourceOk targetsOk) ?_
    rw [ih apart later, List.flatMap_cons, List.append_assoc]

theorem Keyed.entryFor (keyed : ledger.Keyed) {entry : Entry} (inside : entry ∈ ledger.entries) :
    Ledger.entryFor entry.source entry.replacements = [entry] := by
  rw [Ledger.entryFor, if_neg (keyed.recorded entry inside),
    foldl_addReplacement_of_nodup (by simpa using keyed.texts entry inside), List.nil_append]

/-- A ledger whose names are identifiers is read back from its written form, with the entries in the order of
that form. -/
theorem ofJson_toJson (keyed : ledger.Keyed) (identified : ledger.Identified) :
    ofJson ledger.toJson = .ok ledger.sorted := by
  have inside (entry : Entry) : entry ∈ ledger.sorted.entries → entry ∈ ledger.entries :=
    ledger.sorted_perm.mem_iff.mp
  have fields : ledger.sorted.entries.map Entry.field =
      (ledger.sorted.entries.map fun entry => (entry.source, entry.replacements)).map listing := by
    rw [List.map_map]
    rfl
  have keys : ((ledger.sorted.entries.map fun entry => (entry.source, entry.replacements)).map fun item =>
      item.1.text).Nodup := by
    rw [List.map_map]
    exact (keyed.perm ledger.sorted_perm.symm).keys
  have entries : (ledger.sorted.entries.flatMap fun entry => entryFor entry.source entry.replacements) =
      ledger.sorted.entries := by
    rw [List.flatMap_congr fun entry member => keyed.entryFor (inside entry member), List.flatMap_singleton']
  rw [toJson_eq, fields]
  refine (@registerField_all [] _ keys (List.forall_mem_map.mpr fun entry member =>
    identified entry (inside entry member))).trans ?_
  rw [List.nil_append, List.flatMap_map, entries]

end Ledger

end CircuitNames
