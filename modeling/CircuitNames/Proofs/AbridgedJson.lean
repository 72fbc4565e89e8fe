import CircuitNames.Json.Form
import CircuitNames.Proofs.Binds
import CircuitNames.Proofs.RegularJson
import Mathlib.Data.List.Nodup

namespace CircuitNames

namespace Json

/-- The optional fields of an object with what they hold when they are left out, by the kind of the object. An
external module is defined under its own name. -/
def defaults (fields : List (String × Json)) : List (String × Json) :=
  match fields.lookup "kind" with
  | some (.string "mem") =>
    [("readers", .array []), ("writers", .array []), ("readwriters", .array []),
      ("readUnderWrite", .string "undefined")]
  | some (.string "when") => [("else", .array [])]
  | some (.string "print") => [("args", .array [])]
  | some (.string "prim") => [("consts", .array [])]
  | some (.string "extmodule") => ("params", .array []) :: ((fields.lookup "name").map ("defname", ·)).toList
  | _ => []

mutual

/-- The second value stands for the first, which is written out in full. -/
inductive Abridged : Json → Json → Prop
  | null : Abridged .null .null
  | bool (value : Bool) : Abridged (.bool value) (.bool value)
  | number (n : Number) : Abridged (.number n) (.number n)
  | string (text : String) : Abridged (.string text) (.string text)
  | array {items found : List Json} : AbridgedItems items found → Abridged (.array items) (.array found)
  | object {fields kept found : List (String × Json)} : Keeps (defaults fields) fields kept →
      kept.Perm found → Abridged (.object fields) (.object found)

/-- The items of an array found are those written in full, each as it is or abridged. -/
inductive AbridgedItems : List Json → List Json → Prop
  | nil : AbridgedItems [] []
  | cons {full found : Json} {items others : List Json} : Abridged full found → AbridgedItems items others →
      AbridgedItems (full :: items) (found :: others)

/-- Each field is kept, with a value that stands for its own, or left out when it holds its default. -/
inductive Keeps : List (String × Json) → List (String × Json) → List (String × Json) → Prop
  | nil {optional : List (String × Json)} : Keeps optional [] []
  | keep {optional : List (String × Json)} {key : String} {full found : Json}
      {fields kept : List (String × Json)} :
      Abridged full found → Keeps optional fields kept →
        Keeps optional ((key, full) :: fields) ((key, found) :: kept)
  | leave {optional : List (String × Json)} {key : String} {full : Json}
      {fields kept : List (String × Json)} :
      optional.lookup key = some full → Keeps optional fields kept →
        Keeps optional ((key, full) :: fields) kept

end

/-- No object in the value has a key twice. -/
def Keyed (value : Json) : Prop := value.Regular List.Nodup fun _ => True

/-- What is found in a field of an object stands for what is there in full. A field that is left out holds its
default. -/
def Fits (default : Option Json) : Option Json → Option Json → Prop
  | some full, some found => Abridged full found
  | some full, none => default = some full
  | none, found => found = none

section
variable {optional found : List (String × Json)}

theorem lookup_eq_none {fields : List (String × Json)} {key : String} :
    fields.lookup key = none ↔ key ∉ fields.map Prod.fst := by
  rw [List.lookup_eq_none_iff]
  simp only [List.mem_map, not_exists, not_and, bne_iff_ne]
  exact ⟨fun apart field inside same => apart field inside same.symm, fun absent field inside same =>
    absent field inside same.symm⟩

theorem lookup_eq_some {fields : List (String × Json)} (distinct : (fields.map Prod.fst).Nodup) {key : String}
    {value : Json} : fields.lookup key = some value ↔ (key, value) ∈ fields :=
  lookup_eq_some_iff_mem fun _ _ isFirst isSecond =>
    (Prod.mk.inj (List.inj_on_of_nodup_map distinct isFirst isSecond rfl)).2

theorem lookup_perm {fields : List (String × Json)} (distinct : (fields.map Prod.fst).Nodup)
    (perm : fields.Perm found) (key : String) : fields.lookup key = found.lookup key := by
  have alsoDistinct := (perm.map Prod.fst).nodup_iff.mp distinct
  refine Option.ext fun value => ?_
  rw [lookup_eq_some distinct, lookup_eq_some alsoDistinct, perm.mem_iff]

theorem Keeps.sublist : ∀ {fields kept : List (String × Json)}, Keeps optional fields kept →
    (kept.map Prod.fst).Sublist (fields.map Prod.fst)
  | [], _, .nil => .slnil
  | _ :: _, _, .keep _ keeps => keeps.sublist.cons_cons _
  | _ :: _, _, .leave _ keeps => keeps.sublist.cons _

/-- Field by field, what is kept stands for what is there in full. -/
theorem Keeps.fits (key : String) : ∀ {fields kept : List (String × Json)}, Keeps optional fields kept →
    (fields.map Prod.fst).Nodup → Fits (optional.lookup key) (fields.lookup key) (kept.lookup key)
  | [], _, .nil, _ => rfl
  | (own, full) :: _, _, .keep stands keeps, distinct => by
    obtain ⟨-, later⟩ := List.nodup_cons.mp distinct
    by_cases same : key = own
    · subst same
      simpa [Fits] using stands
    · rw [List.lookup_cons, List.lookup_cons, beq_false_of_ne same]
      exact keeps.fits key later
  | (own, full) :: _, kept, .leave holds keeps, distinct => by
    obtain ⟨fresh, later⟩ := List.nodup_cons.mp distinct
    by_cases same : key = own
    · subst same
      have absent : kept.lookup key = none := lookup_eq_none.mpr fun inside =>
        fresh (keeps.sublist.subset inside)
      simpa [absent, Fits] using holds
    · rw [List.lookup_cons, beq_false_of_ne same]
      exact keeps.fits key later

/-- The fields that are found, in the order of those that are there in full. -/
theorem Keeps.of_fits : ∀ {fields : List (String × Json)},
    (∀ field ∈ fields, Fits (optional.lookup field.1) (some field.2) (found.lookup field.1)) →
      Keeps optional fields (fields.filterMap fun field => (found.lookup field.1).map (field.1, ·))
  | [], _ => .nil
  | (key, full) :: rest, fits => by
    obtain ⟨own, others⟩ := List.forall_mem_cons.mp fits
    cases present : found.lookup key with
    | none =>
      rw [present] at own
      rw [List.filterMap_cons_none (by rw [present, Option.map_none])]
      exact .leave own (of_fits others)
    | some value =>
      rw [present] at own
      rw [List.filterMap_cons_some (by rw [present, Option.map_some])]
      exact .keep own (of_fits others)

/-- Which object stands for another is told by looking up its keys. -/
theorem abridged_object_iff {fields : List (String × Json)} (distinct : (fields.map Prod.fst).Nodup) :
    Abridged (.object fields) (.object found) ↔
      (found.map Prod.fst).Nodup ∧
        ∀ key, Fits ((defaults fields).lookup key) (fields.lookup key) (found.lookup key) := by
  constructor
  · rintro (_ | _ | _ | _ | _ | ⟨keeps, perm⟩)
    have keptDistinct := distinct.sublist keeps.sublist
    refine ⟨(perm.map Prod.fst).nodup_iff.mp keptDistinct, fun key => ?_⟩
    rw [← lookup_perm keptDistinct perm]
    exact keeps.fits key distinct
  · rintro ⟨foundDistinct, fits⟩
    have each : ∀ field ∈ fields,
        Fits ((defaults fields).lookup field.1) (some field.2) (found.lookup field.1) := by
      intro field inside
      rw [← (lookup_eq_some distinct).mpr inside]
      exact fits field.1
    have keeps := Keeps.of_fits each
    have keptDistinct := distinct.sublist keeps.sublist
    refine .object keeps
      ((List.perm_ext_iff_of_nodup keptDistinct.of_map foundDistinct.of_map).mpr fun (key, value) => ?_)
    rw [← lookup_eq_some foundDistinct]
    simp only [List.mem_filterMap, Option.map_eq_some_iff, Prod.mk.injEq, Prod.exists]
    constructor
    · rintro ⟨_, _, _, _, present, rfl, rfl⟩
      exact present
    · intro present
      have own := fits key
      rw [present] at own
      cases full : fields.lookup key with
      | none => simp [full, Fits] at own
      | some whole => exact ⟨key, whole, (lookup_eq_some distinct).mp full, value, present, rfl, rfl⟩

/-- The fields of an object out of a list in which some have no value. -/
def present (entries : List (String × Option Json)) : List (String × Json) :=
  entries.filterMap fun (key, value) => value.map (key, ·)

variable {entries : List (String × Option Json)}

theorem keys_present_sublist : ∀ entries : List (String × Option Json),
    ((present entries).map Prod.fst).Sublist (entries.map Prod.fst)
  | [] => .slnil
  | (key, none) :: rest => (keys_present_sublist rest).cons key
  | (key, some _) :: rest => (keys_present_sublist rest).cons_cons key

/-- A field that may be missing is found with its value, or not found when it has none. -/
theorem lookup_present (distinct : (entries.map Prod.fst).Nodup) {entry : String × Option Json}
    (inside : entry ∈ entries) :
    (present entries).lookup entry.1 = entry.2 := by
  refine Option.ext fun value => ?_
  rw [lookup_eq_some (distinct.sublist (keys_present_sublist entries))]
  simp only [present, List.mem_filterMap, Option.map_eq_some_iff, Prod.mk.injEq, Prod.exists]
  constructor
  · rintro ⟨key, _, member, _, rfl, rfl, rfl⟩
    exact congrArg Prod.snd (List.inj_on_of_nodup_map distinct inside member rfl)
  · intro held
    exact ⟨entry.1, entry.2, inside, value, held, rfl, rfl⟩

/-- Which object stands for one that is written field by field is told by its fields, as long as it has no
others. -/
theorem abridged_present_iff (distinct : (entries.map Prod.fst).Nodup)
    (foundDistinct : (found.map Prod.fst).Nodup) :
    Abridged (.object (present entries)) (.object found) ↔
      (∀ key ∈ found.map Prod.fst, key ∈ entries.map Prod.fst) ∧
      ∀ entry ∈ entries, Fits ((defaults (present entries)).lookup entry.1) entry.2
        (found.lookup entry.1) := by
  rw [abridged_object_iff (distinct.sublist (keys_present_sublist entries)), and_iff_right foundDistinct]
  constructor
  · intro fits
    refine ⟨fun key inside => ?_, fun entry inside => lookup_present distinct inside ▸ fits entry.1⟩
    by_contra unknown
    have absent := lookup_eq_none.mpr fun member => unknown ((keys_present_sublist entries).subset member)
    have notFound := fits key
    rw [absent] at notFound
    exact lookup_eq_none.mp notFound inside
  · rintro ⟨known, fits⟩ key
    by_cases inside : key ∈ entries.map Prod.fst
    · obtain ⟨entry, member, rfl⟩ := List.mem_map.mp inside
      exact lookup_present distinct member ▸ fits entry member
    · rw [lookup_eq_none.mpr fun member => inside ((keys_present_sublist entries).subset member)]
      exact lookup_eq_none.mpr fun member => inside (known key member)

end

mutual

/-- A value that is written out in full stands for itself. -/
theorem Abridged.refl : ∀ v : Json, Abridged v v
  | .null => .null
  | .bool value => .bool value
  | .number n => .number n
  | .string text => .string text
  | .array items => .array (AbridgedItems.refl items)
  | .object fields => .object (Keeps.refl fields) (.refl fields)

theorem AbridgedItems.refl : ∀ items : List Json, AbridgedItems items items
  | [] => .nil
  | item :: rest => .cons (Abridged.refl item) (AbridgedItems.refl rest)

theorem Keeps.refl {optional : List (String × Json)} :
    ∀ fields : List (String × Json), Keeps optional fields fields
  | [] => .nil
  | (_, item) :: rest => .keep (Abridged.refl item) (Keeps.refl rest)

end

mutual

/-- A value that stands for another has no keys twice either. -/
theorem Abridged.keyed : ∀ {full found : Json}, Abridged full found → full.Keyed → found.Keyed
  | .null, _, .null, _ | .bool _, _, .bool _, _ | .number _, _, .number _, _
  | .string _, _, .string _, _ => trivial
  | .array _, _, .array each, keyed => keyed_items each keyed
  | .object _, _, .object keeps perm, ⟨distinct, keyed⟩ => by
    have kept := keyed_fields keeps keyed
    refine ⟨(perm.map Prod.fst).nodup_iff.mp (distinct.sublist keeps.sublist),
      regularFields_iff.mpr fun field inside => ?_⟩
    exact regularFields_iff.mp kept field (perm.mem_iff.mpr inside)

theorem keyed_items : ∀ {items found : List Json}, AbridgedItems items found →
    RegularItems List.Nodup (fun _ => True) items → RegularItems List.Nodup (fun _ => True) found
  | [], _, .nil, _ => trivial
  | _ :: _, _, .cons first each, ⟨own, others⟩ => ⟨first.keyed own, keyed_items each others⟩

theorem keyed_fields : ∀ {optional : List (String × Json)} {fields kept : List (String × Json)},
    Keeps optional fields kept → RegularFields List.Nodup (fun _ => True) fields →
      RegularFields List.Nodup (fun _ => True) kept
  | _, [], _, .nil, _ => trivial
  | _, (_, _) :: _, _, .keep first keeps, ⟨own, others⟩ => ⟨first.keyed own, keyed_fields keeps others⟩
  | _, (_, _) :: _, _, .leave _ keeps, ⟨_, others⟩ => keyed_fields keeps others

end

end Json

end CircuitNames
