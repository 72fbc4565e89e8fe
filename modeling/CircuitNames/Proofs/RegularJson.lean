import CircuitNames.Json.Basic
import Mathlib.Data.List.Basic

namespace CircuitNames

namespace Number

/-- A number whose text denotes it: it is finite, and a zero has no sign. -/
def Exact : Number → Prop
  | finite negative units _ => negative = true → units ≠ 0
  | infinite _ => False

/-- What is read once a number is written. -/
def written : Number → Json
  | finite negative units fits => .number (.finite (negative && units != 0) units fits)
  | infinite _ => .null

theorem Exact.written_eq {n : Number} (exact_ : n.Exact) : n.written = .number n := by
  cases n with
  | infinite negative => exact exact_.elim
  | finite negative units fits =>
    cases negative with
    | false => rfl
    | true => rw [written, bne_iff_ne.mpr (exact_ rfl), Bool.and_true]

end Number

namespace Json

mutual

/-- What is read once a value is written. -/
def written : Json → Json
  | null => null
  | bool value => bool value
  | number n => n.written
  | string s => string s
  | array items => array (writtenItems items)
  | object fields => object (writtenFields fields)

def writtenItems : List Json → List Json
  | [] => []
  | item :: rest => written item :: writtenItems rest

/-- What becomes of the fields of an object: an infinity is read as null, a zero without its sign, and all
else stays. -/
def writtenFields : List (String × Json) → List (String × Json)
  | [] => []
  | (key, item) :: rest => (key, written item) :: writtenFields rest

end

section
variable (keys : List String → Prop) (admits : Number → Prop)

mutual

/-- What is asked of the keys of every object and of every number in a value. -/
def Regular : Json → Prop
  | number n => admits n
  | array items => RegularItems items
  | object fields => keys (fields.map Prod.fst) ∧ RegularFields fields
  | null | bool _ | string _ => True

def RegularItems : List Json → Prop
  | [] => True
  | item :: rest => Regular item ∧ RegularItems rest

def RegularFields : List (String × Json) → Prop
  | [] => True
  | (_, item) :: rest => Regular item ∧ RegularFields rest

end

end

section
variable {keys keys' : List String → Prop} {admits admits' : Number → Prop}

theorem regularItems_iff : ∀ {items : List Json}, RegularItems keys admits items ↔
    ∀ item ∈ items, item.Regular keys admits
  | [] => ⟨fun _ => List.forall_mem_nil _, fun _ => trivial⟩
  | item :: rest => by rw [RegularItems, regularItems_iff, List.forall_mem_cons]

theorem regularFields_iff : ∀ {fields : List (String × Json)}, RegularFields keys admits fields ↔
    ∀ field ∈ fields, field.2.Regular keys admits
  | [] => ⟨fun _ => List.forall_mem_nil _, fun _ => trivial⟩
  | (_, item) :: rest => by rw [RegularFields, regularFields_iff, List.forall_mem_cons]

theorem regular_of_lookup {fields : List (String × Json)}
    (regular : (object fields).Regular keys admits) {key : String} {v : Json}
    (found : fields.lookup key = some v) : v.Regular keys admits := by
  obtain ⟨before, after, shape, -⟩ := List.lookup_eq_some_iff.mp found
  exact regularFields_iff.mp regular.2 (key, v) (shape ▸ List.mem_append_right _ List.mem_cons_self)

mutual

/-- What is asked of keys and of numbers may be relaxed. -/
theorem Regular.imp (key : ∀ found, keys found → keys' found) (number : ∀ n, admits n → admits' n) :
    ∀ {v : Json}, v.Regular keys admits → v.Regular keys' admits'
  | .null, _ | .bool _, _ | .string _, _ => trivial
  | .number n, admitted => number n admitted
  | .array _, regular => RegularItems.imp key number regular
  | .object _, ⟨apart, regular⟩ => ⟨key _ apart, RegularFields.imp key number regular⟩

theorem RegularItems.imp (key : ∀ found, keys found → keys' found) (number : ∀ n, admits n → admits' n) :
    ∀ {items : List Json}, RegularItems keys admits items → RegularItems keys' admits' items
  | [], _ => trivial
  | _ :: _, ⟨first, later⟩ => ⟨first.imp key number, RegularItems.imp key number later⟩

theorem RegularFields.imp (key : ∀ found, keys found → keys' found) (number : ∀ n, admits n → admits' n) :
    ∀ {fields : List (String × Json)}, RegularFields keys admits fields → RegularFields keys' admits' fields
  | [], _ => trivial
  | (_, _) :: _, ⟨first, later⟩ => ⟨first.imp key number, RegularFields.imp key number later⟩

end

end

mutual

/-- Every value is regular as long as nothing is asked of it. -/
theorem regular_any : ∀ v : Json, v.Regular (fun _ => True) (fun _ => True)
  | .null | .bool _ | .string _ | .number _ => trivial
  | .array items => regularItems_any items
  | .object fields => ⟨trivial, regularFields_any fields⟩

theorem regularItems_any : ∀ items : List Json, RegularItems (fun _ => True) (fun _ => True) items
  | [] => trivial
  | item :: rest => ⟨regular_any item, regularItems_any rest⟩

theorem regularFields_any :
    ∀ fields : List (String × Json), RegularFields (fun _ => True) (fun _ => True) fields
  | [] => trivial
  | (_, item) :: rest => ⟨regular_any item, regularFields_any rest⟩

end

/-- Keys that stay where they are. -/
def Apart (keys : List String) : Prop := keys.Nodup ∧ ∀ key ∈ keys, listPosition? key = none

theorem setField_fresh {key : String} {value : Json} {fields : List (String × Json)}
    (fresh : key ∉ fields.map Prod.fst) :
    setField key value fields = fields ++ [(key, value)] := by
  induction fields with
  | nil => rfl
  | cons field rest ih =>
    obtain ⟨present, old⟩ := field
    rw [List.map_cons, List.mem_cons, not_or] at fresh
    rw [setField, if_neg (Ne.symm fresh.1), ih fresh.2, List.cons_append]

/-- Fields with distinct keys are put in as they come. -/
theorem foldl_setField {done more : List (String × Json)} (distinct : ((done ++ more).map Prod.fst).Nodup) :
    more.foldl (fun done (key, value) => setField key value done) done = done ++ more := by
  induction more generalizing done with
  | nil => exact (List.append_nil done).symm
  | cons field rest ih =>
    obtain ⟨key, value⟩ := field
    have fresh : key ∉ done.map Prod.fst := by
      rw [List.map_append, List.nodup_append, List.map_cons] at distinct
      exact fun inside => distinct.2.2 key inside key List.mem_cons_self rfl
    have regrouped : done ++ (key, value) :: rest = (done ++ [(key, value)]) ++ rest := by simp
    rw [List.foldl_cons, regrouped]
    rw [regrouped] at distinct
    dsimp only
    rw [setField_fresh fresh, ih distinct]

/-- Fields that stay where they are make the object that they are written for. -/
theorem ofFields_apart {fields : List (String × Json)} (apart : Apart (fields.map Prod.fst)) :
    ofFields fields = object fields := by
  obtain ⟨distinct, noPosition⟩ := apart
  have named : ∀ field ∈ fields, (listPosition? field.1).isSome = false := fun field inside => by
    rw [noPosition field.1 (List.mem_map_of_mem inside)]
    rfl
  have none_ : (fields.partition fun (key, _) => (listPosition? key).isSome) = ([], fields) := by
    rw [List.partition_eq_filter_filter]
    refine Prod.ext (List.filter_eq_nil_iff.mpr fun field inside => ?_)
      (List.filter_eq_self.mpr fun field inside => ?_)
    · simp [named field inside]
    · simp [named field inside]
  have folded : fields.foldl (fun done (key, value) => setField key value done) [] = fields :=
    foldl_setField distinct
  rw [ofFields, folded]
  dsimp only
  rw [none_]
  simp

theorem keys_writtenFields :
    ∀ fields : List (String × Json), (writtenFields fields).map Prod.fst = fields.map Prod.fst
  | [] => rfl
  | (key, item) :: rest => by rw [writtenFields, List.map_cons, List.map_cons, keys_writtenFields rest]

section
variable {keys : List String → Prop} {admits : Number → Prop}

mutual

/-- Once it is written, a value has no other numbers than exact ones. -/
theorem written_regular : ∀ {v : Json}, v.Regular keys admits → v.written.Regular keys Number.Exact
  | .null, _ | .bool _, _ | .string _, _ | .number (.infinite _), _ => trivial
  | .number (.finite negative units _), _ => fun signed => by simpa using (Bool.and_eq_true_iff.mp signed).2
  | .array items, regular => by
    rw [written, Regular]
    exact writtenItems_regular regular
  | .object fields, ⟨apart, regular⟩ => by
    rw [written, Regular, keys_writtenFields]
    exact ⟨apart, writtenFields_regular regular⟩

theorem writtenItems_regular : ∀ {items : List Json}, RegularItems keys admits items →
    RegularItems keys Number.Exact (writtenItems items)
  | [], _ => trivial
  | _ :: _, ⟨first, later⟩ => ⟨written_regular first, writtenItems_regular later⟩

theorem writtenFields_regular : ∀ {fields : List (String × Json)}, RegularFields keys admits fields →
    RegularFields keys Number.Exact (writtenFields fields)
  | [], _ => trivial
  | (_, _) :: _, ⟨first, later⟩ => ⟨written_regular first, writtenFields_regular later⟩

end

mutual

/-- A value with exact numbers is read as it was. -/
theorem written_eq : ∀ {v : Json}, v.Regular keys Number.Exact → v.written = v
  | .null, _ | .bool _, _ | .string _, _ => rfl
  | .number _, exact_ => exact_.written_eq
  | .array _, regular => congrArg array (writtenItems_eq regular)
  | .object _, ⟨_, regular⟩ => congrArg object (writtenFields_eq regular)

theorem writtenItems_eq : ∀ {items : List Json}, RegularItems keys Number.Exact items →
    writtenItems items = items
  | [], _ => rfl
  | _ :: _, ⟨first, later⟩ => by rw [writtenItems, written_eq first, writtenItems_eq later]

/-- Nothing becomes of fields whose numbers are written exactly. -/
theorem writtenFields_eq : ∀ {fields : List (String × Json)}, RegularFields keys Number.Exact fields →
    writtenFields fields = fields
  | [], _ => rfl
  | (_, _) :: _, ⟨first, later⟩ => by rw [writtenFields, written_eq first, writtenFields_eq later]

end

end

end Json

end CircuitNames
