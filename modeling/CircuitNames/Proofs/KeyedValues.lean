import CircuitNames.Json.Reader
import CircuitNames.Proofs.AbridgedJson

namespace CircuitNames

namespace Json

variable {fields written : List (String × Json)}

theorem keys_setField_subset (key : String) (value : Json) (fields : List (String × Json)) :
    (setField key value fields).map Prod.fst ⊆ key :: fields.map Prod.fst := by
  induction fields with
  | nil => exact List.Subset.refl _
  | cons field rest ih =>
    obtain ⟨present, old⟩ := field
    rw [setField]
    split
    · rename_i same
      simp [same]
    · simp only [List.map_cons, List.cons_subset]
      refine ⟨by simp, fun other inside => ?_⟩
      exact (List.mem_cons.mp (ih inside)).elim (fun same => same ▸ List.mem_cons_self)
        fun later => List.mem_cons_of_mem _ (List.mem_cons_of_mem _ later)

theorem nodup_setField (distinct : (fields.map Prod.fst).Nodup) (key : String) (value : Json) :
    ((setField key value fields).map Prod.fst).Nodup := by
  induction fields with
  | nil => exact List.nodup_singleton key
  | cons field rest ih =>
    obtain ⟨present, old⟩ := field
    obtain ⟨fresh, later⟩ := List.nodup_cons.mp distinct
    rw [setField]
    split
    · rename_i same
      exact List.nodup_cons.mpr ⟨same ▸ fresh, later⟩
    · rename_i other
      refine List.nodup_cons.mpr ⟨fun inside => ?_, ih later⟩
      rcases List.mem_cons.mp (keys_setField_subset key value rest inside) with same | inRest
      · exact other same
      · exact fresh inRest

theorem mem_setField {key : String} {value : Json} {field : String × Json}
    (inside : field ∈ setField key value fields) :
    field = (key, value) ∨ field ∈ fields := by
  induction fields with
  | nil => exact Or.inl (List.mem_singleton.mp inside)
  | cons first rest ih =>
    obtain ⟨present, old⟩ := first
    rw [setField] at inside
    split at inside
    · exact (List.mem_cons.mp inside).imp id (List.mem_cons_of_mem _)
    · rcases List.mem_cons.mp inside with rfl | later
      · exact Or.inr List.mem_cons_self
      · exact (ih later).imp id (List.mem_cons_of_mem _)

theorem foldl_setField_keyed {done : List (String × Json)} (distinct : (done.map Prod.fst).Nodup)
    (before : ∀ field ∈ done, field.2.Keyed) (keyed : ∀ field ∈ written, field.2.Keyed) :
    (object (written.foldl (fun done (key, value) => setField key value done) done)).Keyed := by
  induction written generalizing done with
  | nil => exact ⟨distinct, regularFields_iff.mpr before⟩
  | cons field rest ih =>
    obtain ⟨own, others⟩ := List.forall_mem_cons.mp keyed
    refine ih (nodup_setField distinct field.1 field.2) (fun other inside => ?_) others
    rcases mem_setField inside with rfl | later
    · exact own
    · exact before other later

/-- The fields stand in another order than they are written in, each key once. -/
theorem ofFields_keyed (keyed : ∀ field ∈ written, field.2.Keyed) : (ofFields written).Keyed := by
  obtain ⟨distinct, each⟩ := @foldl_setField_keyed written [] List.nodup_nil (List.forall_mem_nil _) keyed
  rw [ofFields]
  generalize written.foldl (fun done (key, value) => setField key value done) [] = fields at distinct each
  dsimp only
  rw [List.partition_eq_filter_filter]
  have reordered := ((List.mergeSort_perm (fields.filter fun (key, _) => (listPosition? key).isSome)
    fun (k, _) (l, _) => (listPosition? k).getD 0 ≤ (listPosition? l).getD 0).append_right _).trans
      (List.filter_append_perm (fun (key, _) => (listPosition? key).isSome) fields)
  refine ⟨(reordered.map Prod.fst).nodup_iff.mpr distinct, regularFields_iff.mpr fun field inside => ?_⟩
  exact regularFields_iff.mp each field (reordered.mem_iff.mp inside)

namespace Reader

mutual

/-- No object that is read from a text has a key twice, by induction on the fuel of the reader. -/
theorem value_keyed : ∀ {fuel : Nat} {input rest : List Char} {found : Json},
    value fuel input = some (found, rest) → found.Keyed
  | 0, _, _, _, read => by simp [value] at read
  | fuel + 1, input, rest, found, read => by
    unfold value at read
    dsimp only at read
    split at read
    · cases read
      trivial
    · cases read
      trivial
    · cases read
      trivial
    · obtain ⟨_, _, same⟩ := Option.map_eq_some_iff.mp read
      cases same
      trivial
    · split at read
      · cases read
        trivial
      · obtain ⟨_, atItems, same⟩ := Option.map_eq_some_iff.mp read
        cases same
        exact regularItems_iff.mpr (items_keyed atItems)
    · split at read
      · cases read
        exact ⟨List.nodup_nil, trivial⟩
      · obtain ⟨_, atFields, same⟩ := Option.map_eq_some_iff.mp read
        cases same
        exact ofFields_keyed (fields_keyed atFields)
    · obtain ⟨_, _, same⟩ := Option.map_eq_some_iff.mp read
      cases same
      trivial

theorem items_keyed : ∀ {fuel : Nat} {input rest : List Char} {found : List Json},
    items fuel input = some (found, rest) →
    ∀ item ∈ found, item.Keyed
  | 0, _, _, _, read => by simp [items] at read
  | fuel + 1, input, rest, found, read => by
    unfold items at read
    obtain ⟨⟨item, after⟩, atItem, read⟩ := Option.bind_eq_some_iff.mp read
    dsimp only at read
    split at read
    · obtain ⟨⟨more, last⟩, atMore, same⟩ := Option.bind_eq_some_iff.mp read
      cases same
      exact List.forall_mem_cons.mpr ⟨value_keyed atItem, items_keyed atMore⟩
    · cases read
      exact List.forall_mem_singleton.mpr (value_keyed atItem)
    · cases read

theorem fields_keyed : ∀ {fuel : Nat} {input rest : List Char} {found : List (String × Json)},
    Reader.fields fuel input = some (found, rest) → ∀ field ∈ found, field.2.Keyed
  | 0, _, _, _, read => by simp [Reader.fields] at read
  | fuel + 1, input, rest, found, read => by
    unfold Reader.fields at read
    dsimp only at read
    split at read
    · obtain ⟨⟨key, after⟩, _, read⟩ := Option.bind_eq_some_iff.mp read
      dsimp only at read
      split at read
      · obtain ⟨⟨item, next⟩, atItem, read⟩ := Option.bind_eq_some_iff.mp read
        dsimp only at read
        split at read
        · obtain ⟨⟨more, last⟩, atMore, same⟩ := Option.bind_eq_some_iff.mp read
          cases same
          exact List.forall_mem_cons.mpr ⟨value_keyed atItem, fields_keyed atMore⟩
        · cases read
          exact List.forall_mem_singleton.mpr (value_keyed atItem)
        · cases read
      · cases read
    · cases read

end

end Reader

/-- So every value that is read has distinct keys, in all of its objects. -/
theorem read?_keyed {text : String} {found : Json} (read : read? text = some found) : found.Keyed := by
  obtain ⟨⟨value, rest⟩, atValue, ended⟩ := Option.bind_eq_some_iff.mp read
  dsimp only at ended
  split at ended
  · exact Option.some.inj ended ▸ Reader.value_keyed atValue
  · cases ended

end Json

end CircuitNames
