import CircuitNames.Proofs.KeyedValues
import CircuitNames.Proofs.TargetGrammar

namespace CircuitNames

theorem Target.parse_eq_error {text : String} {fault : Fault} (failed : parse text = .error fault) :
    text.toList ∉ Grammar.target ∧ fault.code? = some .malformedTarget := by
  have outside : text.toList ∉ Grammar.target := fun inside => by
    obtain ⟨target, read⟩ := parses_iff.mpr inside
    cases read.symm.trans failed
  obtain ⟨flaw, refused⟩ := parse_fails outside
  obtain rfl := Except.error.inj (failed.symm.trans refused)
  exact ⟨outside, rfl⟩

namespace Ledger

/-- An object that lists texts under each of its keys. -/
def form (listed : List (String × List String)) : Json :=
  .object (listed.map fun (key, texts) => (key, .array (texts.map .string)))

/-- What is left of listed texts: the keys with something listed, and of each text the first time it is
listed. -/
def tidied (listed : List (String × List String)) : List (String × List String) :=
  (listed.filter fun field => field.2 ≠ []).map fun field => (field.1, field.2.eraseDups)

def Lists (field : String × Json) (texts : List String) : Prop := field.2 = .array (texts.map .string)

/-- A field that does not list texts. -/
def Unlisted (field : String × Json) : Prop := ∀ texts, ¬Lists field texts

/-- A field that lists texts, and its key and the texts are those of targets. -/
def Legible (field : String × Json) : Prop :=
  ∃ texts, Lists field texts ∧ ∀ text ∈ field.1 :: texts, text.toList ∈ Grammar.target

/-- A field that lists texts, but its key or one of the texts is not that of a target. -/
def Misspelt (field : String × Json) : Prop :=
  ∃ texts, Lists field texts ∧ ∃ text ∈ field.1 :: texts, text.toList ∉ Grammar.target

/-- Of the fields that are not legible, the first is of the given kind. -/
def Stops (kind : String × Json → Prop) (fields : List (String × Json)) : Prop :=
  ∃ before field after, fields = before ++ field :: after ∧ (∀ earlier ∈ before, Legible earlier) ∧ kind field

theorem texts?_eq_some_iff {value : Json} {texts : List String} :
    texts? value = some texts ↔ value = .array (texts.map .string) := by
  refine ⟨fun found => ?_, fun same => same ▸ texts?_strings texts⟩
  cases value with
  | array items =>
    refine congrArg Json.array ?_
    simp only [texts?] at found
    induction items generalizing texts with
    | nil =>
      obtain rfl := Option.some.inj found
      rfl
    | cons item rest ih =>
      rw [List.mapM_cons] at found
      obtain ⟨text, atItem, found⟩ := Option.bind_eq_some_iff.mp found
      obtain ⟨later, atRest, same⟩ := Option.bind_eq_some_iff.mp found
      obtain rfl := Option.some.inj same
      cases item with
      | string own =>
        obtain rfl := Option.some.inj atItem
        rw [List.map_cons, ih atRest]
      | _ => cases atItem
  | _ => cases found

theorem Lists.unique {field : String × Json} {texts others : List String} (lists : Lists field texts)
    (alsoLists : Lists field others) : texts = others :=
  Option.some.inj ((texts?_eq_some_iff.mpr lists).symm.trans (texts?_eq_some_iff.mpr alsoLists))

/-- Every field is of one kind. -/
theorem legible_iff {field : String × Json} : Legible field ↔ ¬Unlisted field ∧ ¬Misspelt field := by
  constructor
  · rintro ⟨texts, lists, legible⟩
    refine ⟨fun unlisted => unlisted texts lists, ?_⟩
    rintro ⟨others, alsoLists, text, inside, outside⟩
    exact outside (legible text (lists.unique alsoLists ▸ inside))
  · rintro ⟨listed, spelt⟩
    obtain ⟨texts, lists⟩ := not_forall_not.mp listed
    exact ⟨texts, lists, fun text inside => not_not.mp fun outside =>
      spelt ⟨texts, lists, text, inside, outside⟩⟩

section Fields
variable (ledger : Ledger) (field : String × Json)

theorem registerText_total_iff (source : Target) (text : String) :
    (∃ next, registerText source ledger text = .ok next) ↔ text.toList ∈ Grammar.target := by
  rw [← Target.parses_iff]
  constructor
  · rintro ⟨next, run⟩
    obtain ⟨target, read, -⟩ := bind_eq_ok.mp run
    exact ⟨target, read⟩
  · rintro ⟨target, read⟩
    exact ⟨_, bind_ok read rfl⟩

theorem registerField_unlisted (unlisted : Unlisted field) :
    ledger.registerField field = .error (.ledgerEntry field.1) := by
  have none : texts? field.2 = none := Option.eq_none_iff_forall_ne_some.mpr fun texts found =>
    unlisted texts (texts?_eq_some_iff.mp found)
  simp only [registerField, none]

/-- The key of a field is read first, and then each of its texts is. -/
theorem registerField_lists {texts : List String} (lists : Lists field texts) :
    ledger.registerField field = Target.parse field.1 >>= fun source =>
      texts.foldlM (registerText source) ledger := by
  simp only [registerField, texts?_eq_some_iff.mpr lists]
  rfl

/-- Whether a field is accepted does not depend on what was read before it. -/
theorem registerField_total_iff : (∃ next, ledger.registerField field = .ok next) ↔ Legible field := by
  by_cases unlisted : Unlisted field
  · simp [registerField_unlisted ledger field unlisted, legible_iff, unlisted]
  · obtain ⟨texts, lists⟩ := not_forall_not.mp unlisted
    have listed : Legible field ↔ ∀ text ∈ field.1 :: texts, text.toList ∈ Grammar.target :=
      ⟨fun ⟨_, alsoLists, legible⟩ => lists.unique alsoLists ▸ legible,
        fun legible => ⟨texts, lists, legible⟩⟩
    rw [listed, List.forall_mem_cons, ← Target.parses_iff, registerField_lists ledger field lists]
    constructor
    · rintro ⟨next, run⟩
      obtain ⟨source, read, run⟩ := bind_eq_ok.mp run
      exact ⟨⟨source, read⟩,
        (foldlM_total_iff fun ledger => registerText_total_iff ledger source).mp ⟨next, run⟩⟩
    · rintro ⟨⟨source, read⟩, legible⟩
      obtain ⟨next, run⟩ := (foldlM_total_iff fun ledger => registerText_total_iff ledger source).mpr legible
      exact ⟨next, bind_ok read run⟩

theorem registerText_fault {source : Target} {text : String} {fault : Fault}
    (failed : registerText source ledger text = .error fault) : fault.code? = some .malformedTarget := by
  rcases bind_eq_error.mp failed with atText | ⟨target, -, later⟩
  · exact (Target.parse_eq_error atText).2
  · cases later

/-- A field fails for one of two reasons, each with a code of its own: it is not an array of texts, or a text
in it or its key is not a target. -/
theorem registerField_fault {fault : Fault} (failed : ledger.registerField field = .error fault) :
    fault.code? = some .malformedLedger ∧ Unlisted field ∨
      fault.code? = some .malformedTarget ∧ Misspelt field := by
  by_cases unlisted : Unlisted field
  · rw [registerField_unlisted ledger field unlisted] at failed
    exact Or.inl ⟨Except.error.inj failed ▸ rfl, unlisted⟩
  · refine Or.inr ⟨?_, ?_⟩
    · obtain ⟨texts, lists⟩ := not_forall_not.mp unlisted
      rw [registerField_lists ledger field lists, bind_eq_error] at failed
      rcases failed with atKey | ⟨source, -, later⟩
      · exact (Target.parse_eq_error atKey).2
      · obtain ⟨_, text, _, next, -, -, stopped⟩ := foldlM_eq_error.mp later
        exact registerText_fault next stopped
    · by_contra spelt
      obtain ⟨next, run⟩ := (registerField_total_iff ledger field).mpr (legible_iff.mpr ⟨unlisted, spelt⟩)
      cases run.symm.trans failed

theorem registerField_unlisted_iff :
    (∃ fault, ledger.registerField field = .error fault ∧ fault.code? = some .malformedLedger) ↔
      Unlisted field := by
  refine ⟨fun ⟨fault, failed, code⟩ => ?_,
    fun unlisted => ⟨_, registerField_unlisted ledger field unlisted, rfl⟩⟩
  rcases registerField_fault ledger field failed with ⟨-, unlisted⟩ | ⟨other, -⟩
  · exact unlisted
  · cases other.symm.trans code

theorem registerField_misspelt_iff :
    (∃ fault, ledger.registerField field = .error fault ∧ fault.code? = some .malformedTarget) ↔
      Misspelt field := by
  constructor
  · rintro ⟨fault, failed, code⟩
    rcases registerField_fault ledger field failed with ⟨other, -⟩ | ⟨-, misspelt⟩
    · cases other.symm.trans code
    · exact misspelt
  · intro misspelt
    cases run : ledger.registerField field with
    | ok next =>
      exact absurd misspelt (legible_iff.mp ((registerField_total_iff ledger field).mp ⟨next, run⟩)).2
    | error fault =>
      rcases registerField_fault ledger field run with ⟨-, unlisted⟩ | ⟨code, -⟩
      · obtain ⟨texts, lists, -⟩ := misspelt
        exact absurd lists (unlisted texts)
      · exact ⟨fault, rfl, code⟩

end Fields

/-- An object is refused for its first field that is not legible, whatever kinds of such fields come after
it. -/
theorem ofJson_fails_iff {kind : String × Json → Prop} {code : Code}
    (each : ∀ ledger field, (∃ fault, registerField ledger field = .error fault ∧ fault.code? = some code) ↔
      kind field)
    (fields : List (String × Json)) :
    (∃ fault, ofJson (.object fields) = .error fault ∧ fault.code? = some code) ↔ Stops kind fields := by
  constructor
  · rintro ⟨fault, failed, hasCode⟩
    obtain ⟨before, field, after, next, same, early, stopped⟩ := foldlM_eq_error.mp failed
    exact ⟨before, field, after, same, (foldlM_total_iff registerField_total_iff).mp ⟨next, early⟩,
      (each next field).mp ⟨fault, stopped, hasCode⟩⟩
  · rintro ⟨before, field, after, same, legible, isKind⟩
    obtain ⟨next, early⟩ : ∃ next, before.foldlM registerField empty = .ok next :=
      (foldlM_total_iff registerField_total_iff).mpr legible
    obtain ⟨fault, stopped, hasCode⟩ := (each next field).mpr isKind
    exact ⟨fault, foldlM_eq_error.mpr ⟨before, field, after, next, same, early, stopped⟩, hasCode⟩

/-- Replacements keep the order in which they are added, and a text that is there already is not added
again. -/
theorem map_text_foldl_addReplacement (targets : List Target) :
    (targets.foldl addReplacement []).map Target.text = (targets.map Target.text).eraseDups := by
  -- Both sides decide about the last text by what stands before it.
  induction targets using List.reverseRecOn with
  | nil => rfl
  | append_singleton targets target ih =>
    have known : (targets.foldl addReplacement []).any (·.text == target.text) = true ↔
        target.text ∈ targets.map Target.text := by
      rw [← List.mem_eraseDups, ← ih]
      simp
    rw [List.foldl_append, List.foldl_cons, List.foldl_nil, List.map_append, List.map_singleton,
      List.eraseDups_append, ← ih]
    by_cases again : target.text ∈ targets.map Target.text
    · rw [addReplacement, if_pos (known.mpr again)]
      simp [List.removeAll, again, -List.mem_map]
    · rw [addReplacement, if_neg (known.not.mpr again), List.map_append]
      simp [List.removeAll, again, List.eraseDups_cons, -List.mem_map]

/-- A legible field lists targets under one, all of them named by identifiers. -/
theorem Legible.listing {field : String × Json} (legible : Legible field) :
    ∃ item, (item.1.Identified ∧ ∀ target ∈ item.2, target.Identified) ∧ Ledger.listing item = field := by
  obtain ⟨key, value⟩ := field
  obtain ⟨texts, rfl, legible⟩ := legible
  have targets : ∀ text ∈ key :: texts, ∃ target : Target, target.Identified ∧ target.text = text :=
      fun text inside => by
    obtain ⟨target, read⟩ := Target.parses_iff.mpr (legible text inside)
    exact ⟨target, Target.parse_eq_ok_iff.mp read⟩
  obtain ⟨atKey, atTexts⟩ := List.forall_mem_cons.mp targets
  obtain ⟨source, sourceOk, rfl⟩ := atKey
  obtain ⟨found, foundOk, rfl⟩ := exists_map_write_eq atTexts
  exact ⟨(source, found), ⟨sourceOk, foundOk⟩, rfl⟩

/-- The values that ledgers are read from are the objects whose keys are target texts, each with an array of
target texts. -/
theorem ofJson_total_iff {value : Json} :
    (∃ ledger, ofJson value = .ok ledger) ↔
      ∃ fields, value = .object fields ∧ ∀ field ∈ fields, Legible field := by
  cases value with
  | object fields =>
    have run : (∃ ledger, ofJson (.object fields) = .ok ledger) ↔ ∀ field ∈ fields, Legible field :=
      foldlM_total_iff registerField_total_iff
    simpa using run
  | _ => simp [ofJson]

/-- What the entries for listed targets say. -/
theorem map_entryFor (listed : List (Target × List Target)) :
    (listed.flatMap fun item => entryFor item.1 item.2).map
      (fun entry => (entry.key, entry.replacements.map Target.text)) =
      tidied (listed.map fun item => (item.1.text, item.2.map Target.text)) := by
  induction listed with
  | nil => rfl
  | cons item rest ih =>
    rw [List.flatMap_cons, List.map_append, ih, List.map_cons]
    obtain ⟨source, targets⟩ := item
    by_cases none : targets = []
    · simp [tidied, entryFor, none]
    · simp [tidied, entryFor, none, map_text_foldl_addReplacement, Entry.key]

theorem form_injective : Function.Injective form := by
  intro first second same
  refine List.map_injective_iff.mpr (fun (key, texts) (other, others) fields => ?_) (Json.object.inj same)
  obtain ⟨rfl, arrays⟩ := Prod.mk.inj fields
  rw [List.map_injective_iff.mpr (fun _ _ => Json.string.inj) (Json.array.inj arrays)]

theorem toJson_eq_form (ledger : Ledger) : ledger.toJson = form ledger.pairs := rfl

/-- What is read from a value that has each key once is written, but for the order of the keys, as what is
left of the texts listed in the value. -/
theorem toJson_of_ofJson {value : Json} {ledger : Ledger} (keyed : value.Keyed)
    (read : ofJson value = .ok ledger) :
    ∃ listed written, value = form listed ∧ ledger.toJson = form written ∧ written.Perm (tidied listed) := by
  obtain ⟨fields, rfl, legible⟩ := ofJson_total_iff.mp ⟨ledger, read⟩
  obtain ⟨items, names, rfl⟩ := exists_map_write_eq fun field inside => (legible field inside).listing
  have keys : (items.map fun item => item.1.text).Nodup := by
    have distinct := keyed.1
    rwa [List.map_map] at distinct
  have entries : ledger = ⟨[] ++ items.flatMap fun item => entryFor item.1 item.2⟩ :=
    Except.ok.inj (read.symm.trans (@registerField_all [] items keys names))
  refine ⟨items.map fun item => (item.1.text, item.2.map Target.text), ledger.pairs, ?_,
    toJson_eq_form ledger, ?_⟩
  · rw [form, List.map_map]
    rfl
  · rw [← map_entryFor, entries]
    exact List.mergeSort_perm _ _

/-- The ledgers that registering and composing build from targets that are named by identifiers. -/
inductive Built : Ledger → Prop
  | empty : Built .empty
  | register {ledger : Ledger} {source replacement : Target} : Built ledger → source.Identified →
      replacement.Identified → Built (ledger.register source replacement)
  | compose {ledger next result : Ledger} : Built ledger → Built next →
    ledger.compose next = .ok result → Built result

theorem Built.kept {ledger : Ledger} (built : Built ledger) : ledger.Keyed ∧ ledger.Identified := by
  induction built with
  | empty => exact ⟨keyed_empty, List.forall_mem_nil _⟩
  | register _ sourceOk replacementOk ih => exact ⟨ih.1.register _ _, ih.2.register sourceOk replacementOk⟩
  | compose _ _ composed ih later => exact ⟨ih.1.compose later.1 composed, ih.2.compose later.2 composed⟩

/-- Ledgers with the same entries, in whatever order, answer alike. -/
theorem Keyed.answers_perm {ledger other : Ledger} (keyed : ledger.Keyed)
    (same : other.entries.Perm ledger.entries) :
    other.size = ledger.size ∧ ∀ target, other.get? target = ledger.get? target ∧
      other.resolve? target = ledger.resolve? target ∧ other.track target = ledger.track target := by
  have found := keyed.find?_perm same.symm
  refine ⟨same.length_eq, fun target => ?_⟩
  simp only [resolve?, get?, track, found, keyed.follow_perm same.symm, and_self]

/-- The written form of ledgers is faithful. Just the objects with legible fields are read, and a refusal
tells what the first other field is like. What is read from a value that has each key once, as every value has
that a text denotes, is written again, up to the order of the keys, without repetitions and empty lists. And a
ledger that is built from targets that are named by identifiers is read from its own form with the same
entries, and gives the same answers. -/
theorem json_faithful :
    (∀ value, ((∃ ledger, ofJson value = .ok ledger) ↔
      ∃ fields, value = .object fields ∧ ∀ field ∈ fields, Legible field) ∧
      ((∃ fault, ofJson value = .error fault ∧ fault.code? = some .malformedLedger) ↔
        (∀ fields, value ≠ .object fields) ∨ ∃ fields, value = .object fields ∧ Stops Unlisted fields) ∧
      ((∃ fault, ofJson value = .error fault ∧ fault.code? = some .malformedTarget) ↔
        ∃ fields, value = .object fields ∧ Stops Misspelt fields)) ∧
    (∀ value ledger, value.Keyed → ofJson value = .ok ledger →
      ∃ listed written, value = form listed ∧ ledger.toJson = form written ∧ written.Perm (tidied listed)) ∧
    (∀ text value, Json.read? text = some value → value.Keyed) ∧
    ∀ ledger, Built ledger → ∃ other, ofJson ledger.toJson = .ok other ∧ other.entries.Perm ledger.entries ∧
      other.size = ledger.size ∧ ∀ target, other.get? target = ledger.get? target ∧
        other.resolve? target = ledger.resolve? target ∧ other.track target = ledger.track target := by
  refine ⟨fun value => ⟨ofJson_total_iff, ?_, ?_⟩, fun value ledger => toJson_of_ofJson,
    fun text value => Json.read?_keyed, fun ledger built => ?_⟩
  · cases value with
    | object fields => simpa using ofJson_fails_iff registerField_unlisted_iff fields
    | _ => simpa using ⟨_, rfl, rfl⟩
  · cases value with
    | object fields => simpa using ofJson_fails_iff registerField_misspelt_iff fields
    | _ =>
      simp only [reduceCtorEq, false_and, exists_false, iff_false]
      rintro ⟨fault, failed, code⟩
      obtain rfl := Except.error.inj failed
      cases code
  · obtain ⟨keyed, identified⟩ := built.kept
    exact ⟨ledger.sorted, ofJson_toJson keyed identified, ledger.sorted_perm,
      keyed.answers_perm ledger.sorted_perm⟩

namespace Sample

/-- A key with a text that is listed again, and a key with nothing listed. -/
def listed : List (String × List String) :=
  [("~C|M>b", ["~C|M>c", "~C|M>d", "~C|M>c"]), ("~C|M>a", []), ("~C|M", ["~C|N"])]

def renamed : Ledger :=
  (Ledger.empty.register (.circuit "C") (.circuit "D")).register (.module ⟨"C", "M"⟩) (.module ⟨"C", "N"⟩)

end Sample

theorem json_faithful_sample :
    (∃ ledger written, ofJson (form Sample.listed) = .ok ledger ∧ ledger.toJson = form written ∧
      written.Perm [("~C|M>b", ["~C|M>c", "~C|M>d"]), ("~C|M", ["~C|N"])]) ∧
    ∃ other, ofJson Sample.renamed.toJson = .ok other ∧
      other.track (.module ⟨"C", "M"⟩) = .ok (.module ⟨"D", "N"⟩) := by
  obtain ⟨-, tidies, -, restores⟩ := json_faithful
  constructor
  · have accepted : (ofJson (form Sample.listed)).toOption.isSome = true := by decide +kernel
    obtain ⟨ledger, found⟩ := Option.isSome_iff_exists.mp accepted
    have read := toOption_eq_some.mp found
    have keyed : (form Sample.listed).Keyed := by
      simp [form, Sample.listed, Json.Keyed, Json.Regular, Json.RegularFields, Json.RegularItems]
    obtain ⟨listed, written, same, writes, perm⟩ := tidies _ ledger keyed read
    obtain rfl := form_injective same
    exact ⟨ledger, written, read, writes, perm⟩
  · have built : Built Sample.renamed := by
      refine .register (.register .empty ?_ ?_) ?_ ?_ <;>
        simp only [Target.Identified, Target.names] <;> decide
    obtain ⟨other, read, -, -, answers⟩ := restores _ built
    refine ⟨other, read, (answers _).2.2.trans ?_⟩
    decide

end Ledger

end CircuitNames
