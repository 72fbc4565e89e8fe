import CircuitNames.Target.Text

namespace CircuitNames

/-- The marks that divide the text of a target. -/
def Target.marks : List Char := ['~', '|', '/', ':', '>', '.']

theorem not_mem_of_isIdentifier {name : String} {mark : Char} (identifier : isIdentifier name)
    (isMark : mark ∈ Target.marks) : mark ∉ name.toList := by
  have noTail : ∀ c ∈ Target.marks, Identifier.isTail c = false := by
    simp only [Target.marks, List.mem_cons, List.not_mem_nil, or_false, forall_eq_or_imp, forall_eq]
    decide
  have noHead : ∀ c ∈ Target.marks, Identifier.isHead c = false := by
    simp only [Target.marks, List.mem_cons, List.not_mem_nil, or_false, forall_eq_or_imp, forall_eq]
    decide
  intro inside
  unfold isIdentifier at identifier
  generalize name.toList = chars at identifier inside
  cases chars with
  | nil => cases inside
  | cons head tail =>
    obtain ⟨starts, goesOn⟩ := Bool.and_eq_true_iff.mp identifier
    rcases List.mem_cons.mp inside with rfl | later
    · exact absurd starts (by simp [noHead mark isMark])
    · exact absurd (List.all_eq_true.mp goesOn mark later) (by simp [noTail mark isMark])

namespace Pieces

/-- A text is cut at the first mark. -/
theorem cut_append {mark : Char} {before : List Char} (clean : mark ∉ before) (after : List Char) :
    cut mark (before ++ mark :: after) = (before, some after) := by
  induction before with
  | nil => simp [cut]
  | cons c rest ih =>
    have other := List.ne_of_not_mem_cons clean
    have cleanRest := List.not_mem_of_not_mem_cons clean
    simp [cut, Ne.symm other, ih cleanRest]

theorem cut_of_not_mem {mark : Char} {text : List Char} (clean : mark ∉ text) :
    cut mark text = (text, none) := by
  induction text with
  | nil => rfl
  | cons c rest ih =>
    have other := List.ne_of_not_mem_cons clean
    have cleanRest := List.not_mem_of_not_mem_cons clean
    simp [cut, Ne.symm other, ih cleanRest]

theorem split_of_not_mem {mark : Char} {text : List Char} (clean : mark ∉ text) :
    split mark text = [text] := by
  induction text with
  | nil => rfl
  | cons c rest ih =>
    have other := List.ne_of_not_mem_cons clean
    have cleanRest := List.not_mem_of_not_mem_cons clean
    simp [split, Ne.symm other, ih cleanRest]

theorem split_append {mark : Char} {before : List Char} (clean : mark ∉ before) (after : List Char) :
    split mark (before ++ mark :: after) = before :: split mark after := by
  induction before with
  | nil => simp [split]
  | cons c rest ih =>
    have other := List.ne_of_not_mem_cons clean
    have cleanRest := List.not_mem_of_not_mem_cons clean
    simp [split, Ne.symm other, ih cleanRest]

/-- Pieces without the mark are found again in a text where each is led by one. -/
theorem split_flatMap {mark : Char} {first : List Char} {pieces : List (List Char)}
    (cleanFirst : mark ∉ first) (clean : ∀ piece ∈ pieces, mark ∉ piece) :
    split mark (first ++ pieces.flatMap (mark :: ·)) = first :: pieces := by
  induction pieces generalizing first with
  | nil => simpa using split_of_not_mem cleanFirst
  | cons piece rest ih =>
    have later := ih (clean piece List.mem_cons_self) fun p inside => clean p (List.mem_cons_of_mem _ inside)
    simp only [List.flatMap_cons, List.cons_append]
    rw [split_append cleanFirst, later]

end Pieces

namespace Target

/-- The names that a target's text spells out, from left to right. -/
def names : Target → List String
  | .circuit name => [name]
  | .module target => [target.circuit, target.module]
  | .inst target =>
    target.circuit :: target.module :: target.inst :: target.ofModule ::
      target.path.flatMap fun hop => [hop.inst, hop.ofModule]
  | .reference target =>
    target.circuit :: target.module :: target.ref ::
      (target.fields ++ target.path.flatMap fun hop => [hop.inst, hop.ofModule])

/-- Every name of the target is an identifier. -/
def Identified (target : Target) : Prop := ∀ name ∈ target.names, isIdentifier name = true

theorem readName_toList {name : String} (identifier : isIdentifier name = true) :
    readName name.toList = .ok name := by
  simp [readName, identifier]

/-- What a list of texts is read as, when each is the text of an item. -/
theorem mapM_read {α : Type} {write : α → List Char} {read : List Char → Except Flaw α} {items : List α}
    (inverse : ∀ item ∈ items, read (write item) = .ok item) :
    (items.map write).mapM read = .ok items := by
  induction items with
  | nil => rfl
  | cons item rest ih =>
    have later := ih fun other inside => inverse other (List.mem_cons_of_mem _ inside)
    simp only [List.map_cons, List.mapM_cons, inverse item List.mem_cons_self, later]
    rfl

theorem readHop_chars {hop : Hop} (own : isIdentifier hop.inst = true)
    (callee : isIdentifier hop.ofModule = true) :
    readHop (hop.inst.toList ++ ':' :: hop.ofModule.toList) = .ok hop := by
  have cleanOwn := not_mem_of_isIdentifier own (show ':' ∈ marks by decide)
  have cleanCallee := not_mem_of_isIdentifier callee (show ':' ∈ marks by decide)
  rw [readHop, Pieces.split_append cleanOwn, Pieces.split_of_not_mem cleanCallee]
  simp only [readName_toList own, readName_toList callee]
  rfl

/-- A hierarchy of identifiers is read back as it was written. -/
theorem readHierarchy_chars {home : String} {path : List Hop} (identifier : isIdentifier home = true)
    (hops : ∀ hop ∈ path, isIdentifier hop.inst = true ∧ isIdentifier hop.ofModule = true) :
    readHierarchy (home.toList ++ path.flatMap Hop.chars) = .ok (home, path) := by
  let piece (hop : Hop) : List Char := hop.inst.toList ++ ':' :: hop.ofModule.toList
  have pieces : path.flatMap Hop.chars = (path.map piece).flatMap ('/' :: ·) := by
    rw [List.flatMap_map]
    rfl
  have clean : ∀ text ∈ path.map piece, '/' ∉ text := by
    intro text member
    obtain ⟨hop, inside, rfl⟩ := List.mem_map.mp member
    have own := not_mem_of_isIdentifier (hops hop inside).1 (show '/' ∈ marks by decide)
    have callee := not_mem_of_isIdentifier (hops hop inside).2 (show '/' ∈ marks by decide)
    simp [piece, own, callee]
  have each : (path.map piece).mapM readHop = .ok path :=
    mapM_read fun hop inside => readHop_chars (hops hop inside).1 (hops hop inside).2
  rw [readHierarchy, pieces, Pieces.split_flatMap (not_mem_of_isIdentifier identifier (by decide)) clean]
  simp only [readName_toList identifier, each]
  rfl

theorem readReference_chars {ref : String} {fields : List String} (identifier : isIdentifier ref = true)
    (names : ∀ field ∈ fields, isIdentifier field = true) :
    readReference (ref.toList ++ fields.flatMap fun field => '.' :: field.toList) = .ok (ref, fields) := by
  have pieces : (fields.flatMap fun field => '.' :: field.toList) =
      (fields.map String.toList).flatMap ('.' :: ·) := by
    rw [List.flatMap_map]
  have clean : ∀ text ∈ fields.map String.toList, '.' ∉ text := by
    intro text member
    obtain ⟨field, inside, rfl⟩ := List.mem_map.mp member
    exact not_mem_of_isIdentifier (names field inside) (by decide)
  have each : (fields.map String.toList).mapM readName = .ok fields :=
    mapM_read fun field inside => readName_toList (names field inside)
  rw [readReference, pieces, Pieces.split_flatMap (not_mem_of_isIdentifier identifier (by decide)) clean]
  simp only [readName_toList identifier, each]
  rfl

/-- No mark of a later part stands in a module with the hops after it. -/
theorem select_not_mem_hierarchy {home : String} {path : List Hop} (identifier : isIdentifier home = true)
    (hops : ∀ hop ∈ path, isIdentifier hop.inst = true ∧ isIdentifier hop.ofModule = true) :
    '>' ∉ home.toList ++ path.flatMap Hop.chars := by
  have clean : '>' ∉ home.toList := not_mem_of_isIdentifier identifier (by decide)
  intro inside
  rcases List.mem_append.mp inside with here | there
  · exact clean here
  · obtain ⟨hop, member, inHop⟩ := List.mem_flatMap.mp there
    have own := not_mem_of_isIdentifier (hops hop member).1 (show '>' ∈ marks by decide)
    have callee := not_mem_of_isIdentifier (hops hop member).2 (show '>' ∈ marks by decide)
    simp [Hop.chars, own, callee] at inHop

theorem ofHierarchy_append (name home : String) (path : List Hop) (last : Hop) :
    ofHierarchy name home (path ++ [last]) = .inst ⟨name, home, path, last.inst, last.ofModule⟩ := by
  simp [ofHierarchy]

theorem readChars_circuit {name : String} (names : (Target.circuit name).Identified) :
    readChars (Target.circuit name).chars = .ok (.circuit name) := by
  have identifier : isIdentifier name = true := names name List.mem_cons_self
  simp only [chars, readChars,
    Pieces.cut_of_not_mem (not_mem_of_isIdentifier identifier (show '|' ∈ marks by decide)),
    readName_toList identifier]
  rfl

theorem readChars_module {target : ModuleTarget} (names : (Target.module target).Identified) :
    readChars (Target.module target).chars = .ok (.module target) := by
  obtain ⟨circuit, home⟩ := target
  have circuitName : isIdentifier circuit = true := names circuit (by simp [Target.names])
  have homeName : isIdentifier home = true := names home (by simp [Target.names])
  have hierarchy := @readHierarchy_chars home [] homeName (by simp)
  have clean := @select_not_mem_hierarchy home [] homeName (by simp)
  simp only [List.flatMap_nil, List.append_nil] at hierarchy clean
  simp only [chars, ModuleTarget.chars, List.cons_append, readChars,
    Pieces.cut_append (not_mem_of_isIdentifier circuitName (show '|' ∈ marks by decide)),
    Pieces.cut_of_not_mem clean, readName_toList circuitName]
  change (readHierarchy home.toList >>= fun read => pure (ofHierarchy circuit read.1 read.2)) = _
  rw [hierarchy]
  rfl

theorem readChars_inst {target : InstanceTarget} (names : (Target.inst target).Identified) :
    readChars (Target.inst target).chars = .ok (.inst target) := by
  obtain ⟨circuit, home, path, own, callee⟩ := target
  have circuitName : isIdentifier circuit = true := names circuit (by simp [Target.names])
  have homeName : isIdentifier home = true := names home (by simp [Target.names])
  have hops : ∀ hop ∈ path ++ [Hop.mk own callee],
      isIdentifier hop.inst = true ∧ isIdentifier hop.ofModule = true := by
    intro hop member
    rcases List.mem_append.mp member with inside | last
    · exact ⟨names hop.inst (by simp only [Target.names, List.mem_cons, List.mem_flatMap]; grind),
        names hop.ofModule (by simp only [Target.names, List.mem_cons, List.mem_flatMap]; grind)⟩
    · obtain rfl := List.mem_singleton.mp last
      exact ⟨names own (by simp [Target.names]), names callee (by simp [Target.names])⟩
  have text : (Target.inst ⟨circuit, home, path, own, callee⟩).chars =
      '~' :: (circuit.toList ++ '|' :: (home.toList ++ (path ++ [Hop.mk own callee]).flatMap Hop.chars)) := by
    simp [chars, InstanceTarget.chars, ModuleTarget.chars]
  simp only [text, readChars,
    Pieces.cut_append (not_mem_of_isIdentifier circuitName (show '|' ∈ marks by decide)),
    Pieces.cut_of_not_mem (select_not_mem_hierarchy homeName hops), readName_toList circuitName,
    readHierarchy_chars homeName hops]
  exact congrArg Except.ok (ofHierarchy_append circuit home path ⟨own, callee⟩)

theorem readChars_reference {target : ReferenceTarget} (names : (Target.reference target).Identified) :
    readChars (Target.reference target).chars = .ok (.reference target) := by
  obtain ⟨circuit, home, path, ref, fields⟩ := target
  have circuitName : isIdentifier circuit = true := names circuit (by simp [Target.names])
  have homeName : isIdentifier home = true := names home (by simp [Target.names])
  have refName : isIdentifier ref = true := names ref (by simp [Target.names])
  have fieldNames : ∀ field ∈ fields, isIdentifier field = true := fun field inside =>
    names field (by simp [Target.names, inside])
  have hops : ∀ hop ∈ path, isIdentifier hop.inst = true ∧ isIdentifier hop.ofModule = true := by
    intro hop member
    exact ⟨names hop.inst
      (by simp only [Target.names, List.mem_cons, List.mem_append, List.mem_flatMap]; grind),
      names hop.ofModule
        (by simp only [Target.names, List.mem_cons, List.mem_append, List.mem_flatMap]; grind)⟩
  have text : (Target.reference ⟨circuit, home, path, ref, fields⟩).chars =
      '~' :: (circuit.toList ++ '|' :: (home.toList ++ path.flatMap Hop.chars ++
        '>' :: (ref.toList ++ fields.flatMap fun field => '.' :: field.toList))) := by
    simp [chars, ReferenceTarget.chars, ModuleTarget.chars]
  simp only [text, readChars,
    Pieces.cut_append (not_mem_of_isIdentifier circuitName (show '|' ∈ marks by decide)),
    Pieces.cut_append (select_not_mem_hierarchy homeName hops), readName_toList circuitName,
    readHierarchy_chars homeName hops, readReference_chars refName fieldNames]
  rfl

/-- A target whose names are identifiers is read back from its text. -/
theorem readChars_chars {target : Target} (names : target.Identified) :
    readChars target.chars = .ok target := by
  cases target with
  | circuit name => exact readChars_circuit names
  | module target => exact readChars_module names
  | inst target => exact readChars_inst names
  | reference target => exact readChars_reference names

/-- Among targets named by identifiers a text has one meaning. -/
theorem eq_of_text_eq {target other : Target} (names : target.Identified) (otherNames : other.Identified)
    (same : target.text = other.text) : target = other := by
  have chars : target.chars = other.chars := by
    simpa [text] using congrArg String.toList same
  have read := readChars_chars names
  rw [chars, readChars_chars otherNames] at read
  exact (Except.ok.inj read).symm

end Target

end CircuitNames
