import CircuitNames.Proofs.NumberTexts
import CircuitNames.Proofs.QuotedTexts
import CircuitNames.Proofs.RegularJson

namespace CircuitNames.Json

namespace Reader

theorem skipBlanks_newLine (level : Nat) (rest : List Char) :
    skipBlanks (Printer.newLine level ++ rest) = skipBlanks rest := by
  refine List.dropWhile_append_of_pos fun c inside => ?_
  rcases List.mem_cons.mp inside with rfl | space
  · rfl
  · exact List.eq_of_mem_replicate space ▸ rfl

/-- The first character of a value: no blank, and no bracket that closes. -/
def Begins (text : List Char) : Prop := ∃ c more, text = c :: more ∧ isBlank c = false ∧ c ≠ ']' ∧ c ≠ '}'

theorem begins_indented (level : Nat) (v : Json) : Begins (Printer.indented level v) := by
  cases v with
  | null => exact ⟨'n', _, rfl, rfl, by decide, by decide⟩
  | bool value => cases value <;> exact ⟨_, _, rfl, rfl, by decide, by decide⟩
  | number n =>
    obtain ⟨c, more, text, isDigit | rfl | rfl⟩ := printed_begins n
    · have other {d : Char} (noDigit : d.isDigit = false) : c ≠ d := by
        rintro rfl
        rw [isDigit] at noDigit
        cases noDigit
      refine ⟨c, more, text, ?_, other rfl, other rfl⟩
      simp [isBlank, other]
    · exact ⟨'-', more, text, rfl, by decide, by decide⟩
    · exact ⟨'n', more, text, rfl, by decide, by decide⟩
  | string s => exact ⟨'"', _, rfl, rfl, by decide, by decide⟩
  | array items => cases items <;> exact ⟨'[', _, rfl, rfl, by decide, by decide⟩
  | object fields => cases fields <;> exact ⟨'{', _, rfl, rfl, by decide, by decide⟩

theorem skipBlanks_begins {text rest : List Char} (begins : Begins text) :
    skipBlanks (text ++ rest) = text ++ rest := by
  obtain ⟨c, more, rfl, noBlank, -⟩ := begins
  exact List.dropWhile_cons_of_neg (by simp [noBlank])

theorem begins_append {text : List Char} (begins : Begins text) (rest : List Char) :
    Begins (text ++ rest) := by
  obtain ⟨c, more, rfl, facts⟩ := begins
  exact ⟨c, more ++ rest, rfl, facts⟩

/-- After the new line an item begins. -/
theorem skipBlanks_item (level : Nat) (v : Json) (rest : List Char) :
    skipBlanks (Printer.newLine level ++ Printer.indented level v ++ rest) =
      Printer.indented level v ++ rest := by
  rw [List.append_assoc, skipBlanks_newLine, skipBlanks_begins (begins_indented level v)]

theorem begins_items {items : List Json} (some_ : items ≠ []) (level : Nat) (rest : List Char) :
    Begins (skipBlanks (Printer.indentedItems level items ++ rest)) := by
  cases items with
  | nil => exact absurd rfl some_
  | cons item more =>
    cases more with
    | nil =>
      rw [Printer.indentedItems, skipBlanks_item]
      exact begins_append (begins_indented level item) rest
    | cons next more =>
      rw [Printer.indentedItems, List.append_assoc, skipBlanks_item]
      exact begins_append (begins_indented level item) _
      exact nofun

theorem begins_fields {fields : List (String × Json)} (some_ : fields ≠ []) (level : Nat) (rest : List Char) :
    Begins (skipBlanks (Printer.indentedFields level fields ++ rest)) := by
  cases fields with
  | nil => exact absurd rfl some_
  | cons field more =>
    obtain ⟨key, item⟩ := field
    have quote (text : List Char) : Begins (skipBlanks (Printer.newLine level ++ '"' :: text)) := by
      rw [skipBlanks_newLine]
      exact ⟨'"', text, rfl, rfl, by decide, by decide⟩
    cases more with
    | nil =>
      simp only [Printer.indentedFields, Quoted.chars, List.append_assoc, List.cons_append]
      exact quote _
    | cons next more =>
      simp only [Printer.indentedFields, Quoted.chars, List.append_assoc, List.cons_append]
      exact quote _

section Steps
variable {fuel : Nat} {input inner after next rest : List Char} {item : Json} {key : String}

theorem value_array (skipped : skipBlanks input = inner) (begins : Begins inner) :
    value (fuel + 1) ('[' :: input) = (items fuel inner).map fun (found, rest) => (.array found, rest) := by
  obtain ⟨c, more, rfl, -, notClosed, -⟩ := begins
  rw [value, skipped]
  split
  · rename_i same
    exact absurd (List.cons.inj same).1 notClosed
  · rfl

theorem value_object (skipped : skipBlanks input = inner) (begins : Begins inner) :
    value (fuel + 1) ('{' :: input) = (fields fuel inner).map fun (found, rest) =>
      (.ofFields found, rest) := by
  obtain ⟨c, more, rfl, -, -, notClosed⟩ := begins
  rw [value, skipped]
  split
  · rename_i same
    exact absurd (List.cons.inj same).1 notClosed
  · rfl

theorem items_last (read : value fuel input = some (item, after)) (closes : skipBlanks after = ']' :: rest) :
    items (fuel + 1) input = some ([item], rest) := by
  simp [items, read, closes]

theorem items_more {found : List Json} (read : value fuel input = some (item, after))
    (goesOn : skipBlanks after = ',' :: next) (later : items fuel (skipBlanks next) = some (found, rest)) :
    items (fuel + 1) input = some (item :: found, rest) := by
  simp [items, read, goesOn, later]

theorem fields_last (named : string input = some (key, ':' :: next)) (gap : skipBlanks next = inner)
    (read : value fuel inner = some (item, after)) (closes : skipBlanks after = '}' :: rest) :
    fields (fuel + 1) ('"' :: input) = some ([(key, item)], rest) := by
  have colon : skipBlanks (':' :: next) = ':' :: next := rfl
  simp [fields, named, colon, gap, read, closes]

theorem fields_more {found : List (String × Json)} {more : List Char}
    (named : string input = some (key, ':' :: next)) (gap : skipBlanks next = inner)
    (read : value fuel inner = some (item, after)) (goesOn : skipBlanks after = ',' :: more)
    (later : fields fuel (skipBlanks more) = some (found, rest)) :
    fields (fuel + 1) ('"' :: input) = some ((key, item) :: found, rest) := by
  have colon : skipBlanks (':' :: next) = ':' :: next := rfl
  simp [fields, named, colon, gap, read, goesOn, later]

end Steps

theorem stops_newLine (level : Nat) (rest : List Char) : Stops (Printer.newLine level ++ rest) :=
  fun c isFirst =>
  Option.some.inj isFirst ▸ ⟨rfl, by decide, by decide, by decide⟩

theorem stops_comma (rest : List Char) : Stops (',' :: rest) := fun c isFirst =>
  Option.some.inj isFirst ▸ ⟨rfl, by decide, by decide, by decide⟩

/-- A key, its colon and what follows. -/
theorem string_key (key : String) (rest : List Char) :
    string (key.toList.flatMap Quoted.escape ++ '"' :: ':' :: rest) = some (key, ':' :: rest) :=
  string_quoted key _

mutual

/-- The indented text of a value is read as the value, with the numbers as they are once they are written. The
keys of an object have to be distinct, and none of them may be a position, which would change its place. -/
theorem value_indented :
    ∀ (v : Json) {level fuel : Nat} {rest : List Char}, v.Regular Apart (fun _ => True) → Stops rest →
    2 * (Printer.indented level v).length < fuel →
      value fuel (Printer.indented level v ++ rest) = some (v.written, rest)
  | v, level, 0, rest, regular, stop, enough => absurd enough (Nat.not_lt_zero _)
  | .null, level, fuel + 1, rest, regular, stop, enough => rfl
  | .bool true, level, fuel + 1, rest, regular, stop, enough => rfl
  | .bool false, level, fuel + 1, rest, regular, stop, enough => rfl
  | .number n, level, fuel + 1, rest, regular, stop, enough => by
    rw [Printer.indented, value_number fuel n stop, written]
  | .string s, level, fuel + 1, rest, regular, stop, enough => by
    simp only [Printer.indented, Quoted.chars, List.cons_append, List.append_assoc, List.nil_append]
    rw [value, string_quoted, written]
    rfl
  | .array [], level, fuel + 1, rest, regular, stop, enough => rfl
  | .array (item :: items), level, fuel + 1, rest, regular, stop, enough => by
    have some_ : item :: items ≠ [] := List.cons_ne_nil _ _
    simp only [Printer.indented, List.cons_append, List.append_assoc, List.nil_append, List.length_cons,
      List.length_append] at enough ⊢
    rw [value_array rfl (begins_items some_ _ _),
      items_indented (item :: items) _ _ _ some_ regular (by omega), written]
    rfl
  | .object [], level, fuel + 1, rest, regular, stop, enough => rfl
  | .object (field :: fields), level, fuel + 1, rest, ⟨apart, regular⟩, stop, enough => by
    have some_ : field :: fields ≠ [] := List.cons_ne_nil _ _
    rw [← keys_writtenFields] at apart
    simp only [Printer.indented, List.cons_append, List.append_assoc, List.nil_append, List.length_cons,
      List.length_append] at enough ⊢
    rw [value_object rfl (begins_fields some_ _ _),
      fields_indented (field :: fields) _ _ _ some_ regular (by omega), written, ← ofFields_apart apart]
    rfl

theorem items_indented :
    ∀ (items : List Json) (level outer : Nat) {fuel : Nat} (rest : List Char), items ≠ [] →
    RegularItems Apart (fun _ => True) items → 2 * (Printer.indentedItems level items).length ≤ fuel →
    Reader.items fuel
      (skipBlanks (Printer.indentedItems level items ++ (Printer.newLine outer ++ ']' :: rest))) =
      some (writtenItems items, rest)
  | [], level, outer, fuel, rest, some_, regular, enough => absurd rfl some_
  | [last], level, outer, 0, rest, some_, regular, enough => by
    simp [Printer.indentedItems, Printer.newLine] at enough
  | [last], level, outer, fuel + 1, rest, some_, ⟨regular, _⟩, enough => by
    simp only [Printer.indentedItems, List.length_append] at enough
    have closes : skipBlanks (Printer.newLine outer ++ ']' :: rest) = ']' :: rest := skipBlanks_newLine ..
    have long : 0 < (Printer.newLine level).length := Nat.zero_lt_succ _
    rw [Printer.indentedItems, skipBlanks_item]
    exact items_last (value_indented last regular (stops_newLine outer _) (by omega)) closes
  | item :: next :: more, level, outer, 0, rest, some_, regular, enough => by
    simp [Printer.indentedItems, Printer.newLine] at enough
  | item :: next :: more, level, outer, fuel + 1, rest, some_, ⟨regular, others⟩, enough => by
    simp only [Printer.indentedItems, List.length_append, List.length_cons] at enough
    have long : 0 < (Printer.newLine level).length := Nat.zero_lt_succ _
    have fuelItem : 2 * (Printer.indented level item).length < fuel := by omega
    have fuelLater : 2 * (Printer.indentedItems level (next :: more)).length ≤ fuel := by omega
    have later := items_indented (next :: more) level outer rest (List.cons_ne_nil _ _) others fuelLater
    have shape : Printer.indentedItems level (item :: next :: more) ++
        (Printer.newLine outer ++ ']' :: rest) = Printer.newLine level ++ Printer.indented level item ++
          ',' :: (Printer.indentedItems level (next :: more) ++ (Printer.newLine outer ++ ']' :: rest)) := by
      simp [Printer.indentedItems]
    rw [shape, skipBlanks_item]
    exact items_more (value_indented item regular (stops_comma _) fuelItem) rfl later

theorem fields_indented :
    ∀ (fields : List (String × Json)) (level outer : Nat) {fuel : Nat} (rest : List Char), fields ≠ [] →
    RegularFields Apart (fun _ => True) fields → 2 * (Printer.indentedFields level fields).length ≤ fuel →
    Reader.fields fuel
      (skipBlanks (Printer.indentedFields level fields ++ (Printer.newLine outer ++ '}' :: rest))) =
      some (writtenFields fields, rest)
  | [], level, outer, fuel, rest, some_, regular, enough => absurd rfl some_
  | [(key, last)], level, outer, 0, rest, some_, regular, enough => by
    simp [Printer.indentedFields, Printer.newLine] at enough
  | [(key, last)], level, outer, fuel + 1, rest, some_, ⟨regular, _⟩, enough => by
    simp only [Printer.indentedFields, Quoted.chars, List.length_append, List.length_cons] at enough
    have closes : skipBlanks (Printer.newLine outer ++ '}' :: rest) = '}' :: rest := skipBlanks_newLine ..
    have fuelItem : 2 * (Printer.indented level last).length < fuel := by omega
    have read := value_indented last regular (stops_newLine outer ('}' :: rest)) fuelItem
    have shape : skipBlanks
        (Printer.indentedFields level [(key, last)] ++ (Printer.newLine outer ++ '}' :: rest)) =
        '"' :: (key.toList.flatMap Quoted.escape ++ '"' :: ':' :: ' ' ::
          (Printer.indented level last ++ (Printer.newLine outer ++ '}' :: rest))) := by
      simp only [Printer.indentedFields, Quoted.chars, List.append_assoc, List.cons_append, List.nil_append,
        skipBlanks_newLine]
      rfl
    rw [shape]
    exact fields_last (string_key key _) (skipBlanks_begins (begins_indented level last)) read closes
  | (key, item) :: next :: more, level, outer, 0, rest, some_, regular, enough => by
    simp [Printer.indentedFields, Printer.newLine] at enough
  | (key, item) :: next :: more, level, outer, fuel + 1, rest, some_, ⟨regular, others⟩, enough => by
    simp only [Printer.indentedFields, Quoted.chars, List.length_append, List.length_cons] at enough
    have fuelItem : 2 * (Printer.indented level item).length < fuel := by omega
    have fuelLater : 2 * (Printer.indentedFields level (next :: more)).length ≤ fuel := by omega
    have later := fields_indented (next :: more) level outer rest (List.cons_ne_nil _ _) others fuelLater
    have shape : skipBlanks (Printer.indentedFields level ((key, item) :: next :: more) ++
          (Printer.newLine outer ++ '}' :: rest)) =
        '"' :: (key.toList.flatMap Quoted.escape ++ '"' :: ':' :: ' ' ::
          (Printer.indented level item ++ ',' ::
            (Printer.indentedFields level (next :: more) ++ (Printer.newLine outer ++ '}' :: rest)))) := by
      simp only [Printer.indentedFields, Quoted.chars, List.append_assoc, List.cons_append, List.nil_append,
        skipBlanks_newLine]
      rfl
    rw [shape]
    exact fields_more (string_key key _) (skipBlanks_begins (begins_indented level item))
      (value_indented item regular (stops_comma _) fuelItem) rfl later

end

end Reader

/-- The text of a file is read as the value that it was written for. -/
theorem read?_fileText {v : Json} (regular : v.Regular Apart (fun _ => True)) :
    read? v.fileText = some v.written := by
  have fuel : 2 * (Printer.indented 0 v).length < 2 * (Printer.indented 0 v ++ ['\n']).length + 1 := by
    rw [List.length_append]
    omega
  have read := Reader.value_indented v regular (Reader.stops_newLine 0 []) fuel
  have line : Printer.newLine 0 ++ [] = ['\n'] := rfl
  rw [line] at read
  have text : v.fileText.toList = Printer.indented 0 v ++ ['\n'] := String.toList_ofList
  rw [read?, text]
  dsimp only
  rw [Reader.skipBlanks_begins (Reader.begins_indented 0 v), read]
  rfl

end CircuitNames.Json
