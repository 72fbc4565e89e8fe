import CircuitNames.Circuit.Interchange
import CircuitNames.Proofs.AbridgedJson
import CircuitNames.Proofs.DecodedCircuits

namespace CircuitNames

namespace Json

theorem fits_string_iff {found : Option Json} {text : String} :
    Fits none (some (.string text)) found ↔ found = some (.string text) := by
  constructor
  · intro fits
    cases found with
    | none => cases fits
    | some found => cases fits with | string => rfl
  · rintro rfl
    exact .string text

theorem fits_number_iff {found : Option Json} {n : Number} :
    Fits none (some (.number n)) found ↔ found = some (.number n) := by
  constructor
  · intro fits
    cases found with
    | none => cases fits
    | some found => cases fits with | number => rfl
  · rintro rfl
    exact .number n

theorem fits_array_iff {found : Option Json} {items : List Json} :
    Fits none (some (.array items)) found ↔
      ∃ others, found = some (.array others) ∧ AbridgedItems items others := by
  constructor
  · intro fits
    cases found with
    | none => cases fits
    | some found => cases fits with | array each => exact ⟨_, rfl, each⟩
  · rintro ⟨others, rfl, each⟩
    exact .array each

theorem fits_object_iff {found : Option Json} {fields : List (String × Json)} :
    Fits none (some (.object fields)) found ↔
      ∃ others, found = some (.object others) ∧ Abridged (.object fields) (.object others) := by
  constructor
  · intro fits
    cases found with
    | none => cases fits
    | some found => cases fits with | object keeps perm => exact ⟨_, rfl, .object keeps perm⟩
  · rintro ⟨others, rfl, stands⟩
    exact stands

theorem abridgedItems_cons_iff {full found : Json} {items others : List Json} :
    AbridgedItems (full :: items) (found :: others) ↔ Abridged full found ∧ AbridgedItems items others := by
  constructor
  · intro stands
    cases stands with | cons first each => exact ⟨first, each⟩
  · rintro ⟨first, each⟩
    exact .cons first each

theorem keyed_item {items : List Json} (keyed : (array items).Keyed) : ∀ item ∈ items, item.Keyed :=
  regularItems_iff.mp keyed

theorem lookup_kind_defaults (fields : List (String × Json)) : (defaults fields).lookup "kind" = none := by
  unfold defaults
  split
  · rfl
  · rfl
  · rfl
  · rfl
  · cases fields.lookup "name" <;> rfl
  · rfl

namespace Record

/-- No object in a field has a key twice. -/
def Keyed (record : Record) : Prop := ∀ key, ∀ v ∈ record.get? key, v.Keyed

/-- Field by field, an object stands for one that is written out in full. -/
def Holds (record : Record) (optional : List (String × Json)) (entries : List (String × Option Json)) :
    Prop :=
  ∀ entry ∈ entries, Fits (optional.lookup entry.1) entry.2 (record.get? entry.1)

theorem keyed_of_fields {record : Record} (keyed : (object record.fields).Keyed) : record.Keyed :=
  fun _ _ found => regular_of_lookup keyed found

theorem allowOnly_eq_ok {record : Record} {allowed : List String} :
    record.allowOnly allowed = .ok () ↔ ∀ key ∈ record.fields.map Prod.fst, key ∈ allowed := by
  unfold allowOnly
  split
  · rename_i key _ found
    have unknown := List.find?_some found
    have inside := List.mem_of_find?_eq_some found
    simp only [reduceCtorEq, false_iff, not_forall]
    exact ⟨key, List.mem_map_of_mem inside, by simpa using unknown⟩
  · rename_i absent
    simpa using absent

end Record

end Json

namespace Decode
open Json (Misfit Record Abridged AbridgedItems Fits defaults present asObject asObject_eq_ok asText asString
  asCount asName asList asOptionalList eachItem fits_string_iff fits_number_iff fits_array_iff
  fits_object_iff)
open Interchange (tagged)

/-- An item is read just when it is sound and what is found stands for it as it is written. -/
def Reads {α : Type} (form : String → Option Json → Except Misfit α) (default : Option Json)
    (item : α) (sound : Prop) (full : Option Json) : Prop :=
  ∀ (label : String) (found : Option Json), (∀ v ∈ found, v.Keyed) →
    (form label found = .ok item ↔ sound ∧ Fits default full found)

theorem asText_reads (text : String) : Reads asText none text (text ≠ "") (some (.string text)) := by
  intro label found _
  rw [fits_string_iff]
  constructor
  · intro read
    refine ⟨asText_nonempty read, ?_⟩
    unfold asText at read
    split at read
    · split at read
      · cases read
      · exact Except.ok.inj read ▸ rfl
    · cases read
  · rintro ⟨nonempty, rfl⟩
    simp [asText, nonempty]

theorem asString_reads (text : String) : Reads asString none text True (some (.string text)) := by
  intro label found _
  rw [fits_string_iff, true_and]
  constructor
  · intro read
    unfold asString at read
    split at read
    · exact Except.ok.inj read ▸ rfl
    · cases read
  · rintro rfl
    rfl

/-- A text that has to pass a check, which the empty text does not pass. -/
theorem checked_reads {check : String → Bool} {flaw : String → Json.Flaw} (nonempty : check "" = false)
    (text : String) :
    Reads (fun label found => do
      let text ← asText label found
      if check text then return text else .error ⟨label, flaw text⟩) none text (check text = true)
        (some (.string text)) := by
  intro label found keyed
  have some_ : check text = true → text ≠ "" := by
    rintro passes rfl
    exact Bool.false_ne_true (nonempty.symm.trans passes)
  have texts := asText_reads text label found keyed
  rw [bind_eq_ok]
  constructor
  · rintro ⟨other, read, passed⟩
    split at passed
    · rename_i passes
      obtain rfl := Except.ok.inj passed
      exact ⟨passes, (texts.mp read).2⟩
    · cases passed
  · rintro ⟨passes, fits⟩
    exact ⟨text, texts.mpr ⟨some_ passes, fits⟩, if_pos passes⟩

theorem asName_reads (name : String) :
    Reads asName none name (isIdentifier name = true) (some (.string name)) :=
  checked_reads rfl name

theorem literalValue_reads (value : String) :
    Reads literalValue none value (isInteger value = true) (some (.string value)) :=
  checked_reads rfl value

theorem asCount_reads (count : Number) :
    Reads asCount none count (count.Counts fun _ => True) (some (.number count)) := by
  intro label found _
  rw [fits_number_iff]
  constructor
  · intro read
    refine ⟨Stems.counts ⟨label, found, fun v _ => v.regular_any, read⟩, ?_⟩
    unfold asCount at read
    split at read
    · split at read
      · exact Except.ok.inj read ▸ rfl
      · cases read
    · cases read
  · rintro ⟨counts, rfl⟩
    exact if_pos counts.isCount

section Lists
variable {α : Type} {form : String → Option Json → Except Misfit α} {write : α → Json} {sound : α → Prop}
  {items : List α}

theorem eachItem_eq_ok (each : ∀ item ∈ items, Reads form none item (sound item) (some (write item)))
    {label : String} {position : Nat} {values : List Json} (keyed : ∀ value ∈ values, value.Keyed) :
    eachItem form label position values = .ok items ↔
      (∀ item ∈ items, sound item) ∧ AbridgedItems (items.map write) values := by
  induction values generalizing items position with
  | nil =>
    cases items with
    | nil => exact ⟨fun _ => ⟨List.forall_mem_nil _, .nil⟩, fun _ => rfl⟩
    | cons item rest =>
      exact iff_of_false (fun read => List.cons_ne_nil _ _ (Except.ok.inj read).symm) fun stands => by
        cases stands.2
  | cons value others ih =>
    obtain ⟨ownKeyed, othersKeyed⟩ := List.forall_mem_cons.mp keyed
    rw [eachItem, bind_eq_ok]
    simp only [bind_eq_ok]
    cases items with
    | nil =>
      constructor
      · rintro ⟨_, _, _, _, result⟩
        exact (List.cons_ne_nil _ _ (Except.ok.inj result)).elim
      · rintro ⟨_, stands⟩
        cases stands
    | cons item rest =>
      obtain ⟨own, later⟩ := List.forall_mem_cons.mp each
      have first (label : String) := own label (some value) fun _ same => Option.some.inj same ▸ ownKeyed
      rw [List.forall_mem_cons, List.map_cons, Json.abridgedItems_cons_iff, and_and_and_comm,
        ← ih later othersKeyed]
      constructor
      · rintro ⟨_, atFirst, _, atRest, result⟩
        obtain ⟨rfl, rfl⟩ := List.cons.inj (Except.ok.inj result)
        exact ⟨(first _).mp atFirst, atRest⟩
      · rintro ⟨atFirst, atRest⟩
        exact ⟨item, (first _).mpr atFirst, rest, atRest, rfl⟩

/-- A list is read from an array when each of its members is read from the item at its position, however the
members are read. -/
theorem asList_reads (each : ∀ item ∈ items, Reads form none item (sound item) (some (write item))) :
    Reads (asList form) none items (∀ item ∈ items, sound item) (some (.array (items.map write))) := by
  intro label found keyed
  rw [fits_array_iff]
  constructor
  · intro read
    unfold asList at read
    split at read
    · obtain ⟨sounds, stands⟩ := (eachItem_eq_ok each (Json.keyed_item (keyed _ rfl))).mp read
      exact ⟨sounds, _, rfl, stands⟩
    · cases read
  · rintro ⟨sounds, values, rfl, stands⟩
    exact (eachItem_eq_ok each (Json.keyed_item (keyed _ rfl))).mpr ⟨sounds, stands⟩

theorem asOptionalList_reads (each : ∀ item ∈ items, Reads form none item (sound item) (some (write item))) :
    Reads (asOptionalList form) (some (.array [])) items (∀ item ∈ items, sound item)
      (some (.array (items.map write))) := by
  intro label found keyed
  cases found with
  | none =>
    cases items with
    | nil => simp [asOptionalList, Fits]
    | cons item rest => simp [asOptionalList, Fits]
  | some value => exact asList_reads each label (some value) keyed

end Lists

section Fields
variable {α : Type} {form : String → Option Json → Except Misfit α} {item : α} {sound : Prop}
  {full : Option Json}

theorem orAbsent_reads {write : α → Json} {sound : α → Prop} {item : Option α}
    (each : ∀ value ∈ item, Reads form none value (sound value) (some (write value))) :
    Reads (orAbsent form) none item (∀ value ∈ item, sound value) (item.map write) := by
  intro label found keyed
  cases found with
  | none => cases item <;> simp [orAbsent, Fits]
  | some found =>
    rw [orAbsent_some_eq_ok]
    cases item with
    | none => simp [Fits]
    | some value => simpa using each value rfl label (some found) keyed

/-- A field is read as its part when the object stands for the fields written out in full, whether or not the
field is left out. -/
theorem Reads.field {key : String} {optional : List (String × Json)}
    (reads : Reads form (optional.lookup key) item sound full) {record : Record} (keyed : record.Keyed)
    {entries : List (String × Option Json)} {filled others : Prop}
    (later : filled ↔ others ∧ record.Holds optional entries) :
    record.read form key = .ok item ∧ filled ↔
      (sound ∧ others) ∧ record.Holds optional ((key, full) :: entries) := by
  rw [Record.read, reads _ _ (keyed key), later, Record.Holds, Record.Holds, List.forall_mem_cons]
  exact and_and_and_comm

theorem Reads.last {key : String} {optional : List (String × Json)}
    (reads : Reads form (optional.lookup key) item sound full) {record : Record} (keyed : record.Keyed) :
    record.read form key = .ok item ↔ sound ∧ record.Holds optional [(key, full)] := by
  rw [Record.read, reads _ _ (keyed key), Record.Holds, List.forall_mem_singleton]

variable {filled : Record → Prop} {parts : Prop} {entries : List (String × Option Json)}

/-- An object is read when it has no other fields than those that are written and each of them is read. -/
theorem read_iff_abridged (keys : List String) (optional : List (String × Json))
    (same : entries.map Prod.fst = keys) (distinct : keys.Nodup)
    (left : defaults (present entries) = optional) {record : Record}
    (keyed : (Json.object record.fields).Keyed) {reads : Prop}
    (each : reads ↔ parts ∧ record.Holds optional entries) (whole : sound ↔ parts) :
    record.allowOnly keys = .ok () ∧ reads ↔
      sound ∧ Abridged (.object (present entries)) (.object record.fields) := by
  subst same left
  rw [each, Record.allowOnly_eq_ok, whole, Json.abridged_present_iff distinct keyed.1]
  exact and_left_comm

/-- An object is read field by field: it may have the known keys only, those without a default must be there,
and what is read is sound when its parts are. -/
theorem reads_object (keys : List String) (optional : List (String × Json))
    (same : entries.map Prod.fst = keys) (distinct : keys.Nodup)
    (left : defaults (present entries) = optional) (shape : ∀ label found, form label found = .ok item ↔
      ∃ record, asObject label found = .ok record ∧ record.allowOnly keys = .ok () ∧ filled record)
    (each : ∀ record : Record, record.Keyed → (filled record ↔ parts ∧ record.Holds optional entries))
    (whole : sound ↔ parts) :
    Reads form none item sound (some (.object (present entries))) := by
  intro label found keyed
  have inside (record : Record) (fieldsKeyed : (Json.object record.fields).Keyed) :
      record.allowOnly keys = .ok () ∧ filled record ↔
        sound ∧ Abridged (.object (present entries)) (.object record.fields) :=
    read_iff_abridged keys optional same distinct left fieldsKeyed
      (each record (Record.keyed_of_fields fieldsKeyed)) whole
  rw [shape, fits_object_iff]
  constructor
  · rintro ⟨record, atRecord, read⟩
    obtain ⟨-, rfl⟩ := asObject_eq_ok.mp atRecord
    obtain ⟨sounds, stands⟩ := (inside record (keyed _ rfl)).mp read
    exact ⟨sounds, record.fields, rfl, stands⟩
  · rintro ⟨sounds, fields, rfl, stands⟩
    exact ⟨⟨label, fields⟩, rfl, (inside ⟨label, fields⟩ (keyed _ rfl)).mpr ⟨sounds, stands⟩⟩

/-- The same for an object whose `kind` says which constructor it stands for. -/
theorem reads_tagged (keys : List String) (optional : List (String × Json)) {kind : String}
    (same : entries.map Prod.fst = keys) (distinct : ("kind" :: keys).Nodup) (named : kind ≠ "")
    (left : defaults (("kind", .string kind) :: present entries) = optional)
    (shape : ∀ label found, form label found = .ok item ↔
      ∃ record, asObject label found = .ok record ∧ record.Tagged kind keys ∧ filled record)
    (each : ∀ record : Record, record.Keyed → (filled record ↔ parts ∧ record.Holds optional entries))
    (whole : sound ↔ parts) :
    Reads form none item sound (some (tagged kind entries)) := by
  have kinds : Reads asText (optional.lookup "kind") kind (kind ≠ "") (some (.string kind)) := by
    rw [← left, Json.lookup_kind_defaults]
    exact asText_reads kind
  have all : (("kind", some (Json.string kind)) :: entries).map Prod.fst = "kind" :: keys := by
    rw [List.map_cons, same]
  refine reads_object ("kind" :: keys) optional all distinct left (fun label found => ?_)
    (fun record keyed => kinds.field keyed (each record keyed)) (whole.trans (and_iff_right named).symm)
  rw [shape]
  refine exists_congr fun record => and_congr_right fun _ => ?_
  rw [Record.Tagged]
  exact and_right_comm.trans and_comm

/-- An object that holds its kind only. -/
theorem reads_bare {kind : String} (named : kind ≠ "") (plain : defaults [("kind", .string kind)] = [])
    (shape : ∀ label found, form label found = .ok item ↔
      ∃ record, asObject label found = .ok record ∧ record.Tagged kind [])
    (sounds : sound) : Reads form none item sound (some (tagged kind [])) :=
  reads_tagged [] [] rfl (List.nodup_singleton "kind") named plain
    (fun label found => (shape label found).trans (by simp only [and_true]))
    (fun _ _ => iff_of_true trivial ⟨trivial, List.forall_mem_nil _⟩) (iff_true_intro sounds)

end Fields

end Decode

end CircuitNames
