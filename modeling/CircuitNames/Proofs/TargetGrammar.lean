import CircuitNames.Proofs.ReadLedgers
import Mathlib.Computability.Language

namespace CircuitNames

open scoped Computability

namespace Grammar

/-- The words of one character that has a property. -/
def oneOf (holds : Char → Prop) : Language Char := {word | ∃ c, holds c ∧ [c] = word}

def letter : Language Char := oneOf fun c => 'A' ≤ c ∧ c ≤ 'Z' ∨ 'a' ≤ c ∧ c ≤ 'z'

def digit : Language Char := oneOf fun c => '0' ≤ c ∧ c ≤ '9'

def mark (c : Char) : Language Char := oneOf (· = c)

def identifier : Language Char := (letter + mark '_') * (letter + digit + mark '_' + mark '$')∗

def hop : Language Char := mark '/' * identifier * mark ':' * identifier

def field : Language Char := mark '.' * identifier

/-- The texts of targets as a language, `~ID ( |ID (/ID:ID)* ( >ID(.ID)* )? )?`. -/
def target : Language Char :=
  mark '~' * identifier * (1 + mark '|' * identifier * hop∗ * (1 + mark '>' * identifier * field∗))

/-- A language has just the texts of the things of a sort. -/
def Spells {α : Type} (language : Language Char) (sort : α → Prop) (write : α → List Char) : Prop :=
  ∀ word, word ∈ language ↔ ∃ x, sort x ∧ write x = word

/-- Words in a row spell lists. -/
theorem Spells.star {α : Type} {language : Language Char} {sort : α → Prop} {write : α → List Char}
    (spells : Spells language sort write) :
    Spells language∗ (fun items => ∀ x ∈ items, sort x) (List.flatMap write) := by
  intro word
  rw [Language.mem_kstar]
  constructor
  · rintro ⟨words, rfl, inside⟩
    obtain ⟨items, each, rfl⟩ := exists_map_write_eq fun part isPart => (spells part).mp (inside part isPart)
    exact ⟨items, each, rfl⟩
  · rintro ⟨items, each, rfl⟩
    refine ⟨items.map write, rfl, List.forall_mem_map.mpr fun x isItem => ?_⟩
    exact (spells _).mpr ⟨x, each x isItem, rfl⟩

/-- What begins with a word of a language begins with the text of something. -/
theorem Spells.mul {α : Type} {language later : Language Char} {sort : α → Prop} {write : α → List Char}
    (spells : Spells language sort write) {word : List Char} :
    word ∈ language * later ↔ ∃ x, sort x ∧ ∃ rest ∈ later, write x ++ rest = word := by
  rw [Language.mem_mul]
  constructor
  · rintro ⟨first, isFirst, rest, inside, rfl⟩
    obtain ⟨x, holds, rfl⟩ := (spells first).mp isFirst
    exact ⟨x, holds, rest, inside, rfl⟩
  · rintro ⟨x, holds, rest, inside, rfl⟩
    exact ⟨_, (spells _).mpr ⟨x, holds, rfl⟩, rest, inside, rfl⟩

theorem mem_oneOf {holds : Char → Prop} {word : List Char} :
    word ∈ oneOf holds ↔ ∃ c, holds c ∧ [c] = word := Iff.rfl

theorem mem_mark_mul {c : Char} {language : Language Char} {word : List Char} :
    word ∈ mark c * language ↔ ∃ rest ∈ language, c :: rest = word := by
  rw [Language.mem_mul]
  constructor
  · rintro ⟨_, ⟨_, rfl, rfl⟩, rest, inside, rfl⟩
    exact ⟨rest, inside, rfl⟩
  · rintro ⟨rest, inside, rfl⟩
    exact ⟨[c], ⟨c, rfl, rfl⟩, rest, inside, rfl⟩

theorem isAlpha_iff {c : Char} : c.isAlpha = true ↔ 'A' ≤ c ∧ c ≤ 'Z' ∨ 'a' ≤ c ∧ c ≤ 'z' := by
  simp [Char.isAlpha, Char.isUpper, Char.isLower, Char.le_def]

theorem isDigit_iff {c : Char} : c.isDigit = true ↔ '0' ≤ c ∧ c ≤ '9' := by
  simp [Char.isDigit, Char.le_def]

theorem head_spells : Spells (letter + mark '_') (Identifier.isHead · = true) (fun c => [c]) := by
  intro word
  simp only [Language.mem_add, letter, mark, mem_oneOf, Identifier.isHead, Bool.or_eq_true,
    beq_iff_eq, isAlpha_iff, or_and_right, exists_or]

theorem tail_spells :
    Spells (letter + digit + mark '_' + mark '$') (Identifier.isTail · = true) (fun c => [c]) := by
  intro word
  simp only [Language.mem_add, letter, digit, mark, mem_oneOf, Identifier.isTail, Char.isAlphanum,
    Bool.or_eq_true, beq_iff_eq, isAlpha_iff, isDigit_iff, or_and_right, exists_or]

/-- The identifiers are the words of their part of the grammar. -/
theorem identifier_spells : Spells identifier (isIdentifier · = true) String.toList := by
  intro word
  rw [identifier, Language.mem_mul]
  constructor
  · rintro ⟨first, isFirst, later, isLater, rfl⟩
    obtain ⟨head, headOk, rfl⟩ := (head_spells first).mp isFirst
    obtain ⟨tail, tailOk, rfl⟩ := (tail_spells.star later).mp isLater
    rw [List.flatMap_singleton']
    refine ⟨String.ofList (head :: tail), ?_, String.toList_ofList⟩
    change Identifier.accepts _ = true
    rw [String.toList_ofList]
    exact Bool.and_eq_true_iff.mpr ⟨headOk, List.all_eq_true.mpr tailOk⟩
  · rintro ⟨name, identifier, rfl⟩
    unfold isIdentifier at identifier
    generalize name.toList = chars at identifier
    cases chars with
    | nil => cases identifier
    | cons head tail =>
      obtain ⟨headOk, tailOk⟩ := Bool.and_eq_true_iff.mp identifier
      refine ⟨[head], (head_spells _).mpr ⟨head, headOk, rfl⟩, tail,
        (tail_spells.star tail).mpr ⟨tail, ?_, ?_⟩, rfl⟩
      · exact List.all_eq_true.mp tailOk
      · exact List.flatMap_singleton' tail

theorem hop_spells :
    Spells hop (fun hop => isIdentifier hop.inst = true ∧ isIdentifier hop.ofModule = true) Hop.chars := by
  intro word
  simp only [hop, mul_assoc, mem_mark_mul, identifier_spells.mul, identifier_spells _]
  constructor
  · rintro ⟨_, ⟨own, ownOk, _, ⟨_, ⟨callee, calleeOk, rfl⟩, rfl⟩, rfl⟩, rfl⟩
    exact ⟨⟨own, callee⟩, ⟨ownOk, calleeOk⟩, rfl⟩
  · rintro ⟨⟨own, callee⟩, ⟨ownOk, calleeOk⟩, rfl⟩
    exact ⟨_, ⟨own, ownOk, _, ⟨_, ⟨callee, calleeOk, rfl⟩, rfl⟩, rfl⟩, rfl⟩

theorem field_spells : Spells field (isIdentifier · = true) (fun field => '.' :: field.toList) := by
  intro word
  simp only [field, mem_mark_mul, identifier_spells _]
  constructor
  · rintro ⟨_, ⟨name, nameOk, rfl⟩, rfl⟩
    exact ⟨name, nameOk, rfl⟩
  · rintro ⟨name, nameOk, rfl⟩
    exact ⟨_, ⟨name, nameOk, rfl⟩, rfl⟩

end Grammar

namespace Pieces

theorem eq_of_cut_none {mark : Char} {text before : List Char} (cuts : cut mark text = (before, none)) :
    before = text := by
  simpa [cuts] using cut_rejoin mark text

theorem eq_of_cut_some {mark : Char} {text before after : List Char}
    (cuts : cut mark text = (before, some after)) :
    before ++ mark :: after = text := by
  simpa [cuts] using cut_rejoin mark text

/-- Splitting loses nothing but the marks. -/
theorem split_rejoin {mark : Char} {text first : List Char} {rest : List (List Char)}
    (pieces : split mark text = first :: rest) : first ++ rest.flatMap (mark :: ·) = text := by
  induction text generalizing first rest with
  | nil =>
    obtain ⟨rfl, rfl⟩ := List.cons.inj pieces
    rfl
  | cons c text ih =>
    unfold split at pieces
    split at pieces
    next atMark =>
      obtain ⟨rfl, rfl⟩ := List.cons.inj pieces
      cases later : split mark text with
      | nil => exact absurd later (split_ne_nil mark text)
      | cons next more => rw [List.nil_append, List.flatMap_cons, List.cons_append, ih later, atMark]
    next =>
      cases later : split mark text with
      | nil => exact absurd later (split_ne_nil mark text)
      | cons next more =>
        rw [later] at pieces
        obtain ⟨rfl, rfl⟩ := List.cons.inj pieces
        rw [List.cons_append, ih later]

end Pieces

namespace Target

open Grammar

theorem chars_ofHierarchy (name home : String) (hops : List Hop) :
    (ofHierarchy name home hops).chars =
      '~' :: (name.toList ++ '|' :: (home.toList ++ hops.flatMap Hop.chars)) := by
  rcases List.eq_nil_or_concat hops with rfl | ⟨path, last, rfl⟩
  · simp [ofHierarchy, chars, ModuleTarget.chars]
  · rw [List.concat_eq_append, ofHierarchy_append]
    simp [chars, InstanceTarget.chars, ModuleTarget.chars]

/-- A reference is written as the grammar has it: the circuit, the hierarchy, and the fields. -/
theorem chars_reference (target : ReferenceTarget) : (Target.reference target).chars =
    '~' :: (target.circuit.toList ++ '|' :: (target.module.toList ++ (target.path.flatMap Hop.chars ++
      '>' :: (target.ref.toList ++ target.fields.flatMap fun field => '.' :: field.toList)))) := by
  simp [chars, ReferenceTarget.chars, ModuleTarget.chars]

/-- The words of the grammar are the texts of the targets that are named by identifiers. -/
theorem target_spells : Spells Grammar.target Identified chars := by
  intro word
  simp only [Grammar.target, mul_assoc, mem_mark_mul, identifier_spells.mul, Language.mem_add,
    Language.mem_one, hop_spells.star.mul, field_spells.star _]
  constructor
  · rintro ⟨_, ⟨name, nameOk, rest, continues, rfl⟩, rfl⟩
    rcases continues with rfl | ⟨_, ⟨home, homeOk, _, ⟨hops, hopsOk, rest, selects, rfl⟩, rfl⟩, rfl⟩
    · exact ⟨.circuit name, List.forall_mem_singleton.mpr nameOk, by rw [List.append_nil]; rfl⟩
    · rcases selects with rfl | ⟨_, ⟨ref, refOk, _, ⟨fields, fieldsOk, rfl⟩, rfl⟩, rfl⟩
      · refine ⟨ofHierarchy name home hops, ofHierarchy_identified nameOk homeOk hopsOk, ?_⟩
        rw [chars_ofHierarchy, List.append_nil]
      · refine ⟨.reference ⟨name, home, hops, ref, fields⟩, ?_, chars_reference _⟩
        exact identified_reference.mpr ⟨identified_module.mpr ⟨nameOk, homeOk⟩, hopsOk, refOk, fieldsOk⟩
  · rintro ⟨target, names, rfl⟩
    cases target with
    | circuit name => exact ⟨_, ⟨name, names name List.mem_cons_self, [], Or.inl rfl, List.append_nil _⟩, rfl⟩
    | module target =>
      obtain ⟨nameOk, homeOk⟩ := identified_module.mp names
      refine ⟨_, ⟨target.circuit, nameOk, _, Or.inr ⟨_, ⟨target.module, homeOk, _,
        ⟨[], List.forall_mem_nil _, [], Or.inl rfl, rfl⟩, rfl⟩, rfl⟩, rfl⟩, ?_⟩
      simp [chars, ModuleTarget.chars]
    | inst target =>
      obtain ⟨homeOk, hopsOk, last⟩ := identified_inst.mp names
      obtain ⟨nameOk, homeOk⟩ := identified_module.mp homeOk
      have allOk : HopsIdentified (target.path ++ [Hop.mk target.inst target.ofModule]) :=
        List.forall_mem_append.mpr ⟨hopsOk, List.forall_mem_singleton.mpr last⟩
      refine ⟨_, ⟨target.circuit, nameOk, _, Or.inr ⟨_, ⟨target.module, homeOk, _,
        ⟨target.path ++ [Hop.mk target.inst target.ofModule], allOk, [], Or.inl rfl, rfl⟩, rfl⟩, rfl⟩, rfl⟩,
        ?_⟩
      simp [chars, InstanceTarget.chars, ModuleTarget.chars]
    | reference target =>
      obtain ⟨homeOk, hopsOk, refOk, fieldsOk⟩ := identified_reference.mp names
      obtain ⟨nameOk, homeOk⟩ := identified_module.mp homeOk
      exact ⟨_, ⟨target.circuit, nameOk, _, Or.inr ⟨_, ⟨target.module, homeOk, _, ⟨target.path, hopsOk, _,
        Or.inr ⟨_, ⟨target.ref, refOk, _, ⟨target.fields, fieldsOk, rfl⟩, rfl⟩, rfl⟩, rfl⟩, rfl⟩, rfl⟩, rfl⟩,
        (chars_reference target).symm⟩

theorem readName_exact {word : List Char} {name : String} (read : readName word = .ok name) :
    name.toList = word := by
  unfold readName at read
  dsimp only at read
  split at read
  · rw [← Except.ok.inj read, String.toList_ofList]
  · cases read

theorem readHop_exact {word : List Char} {hop : Hop} (read : readHop word = .ok hop) :
    hop.chars = '/' :: word := by
  unfold readHop at read
  split at read
  · rename_i own callee pieces
    obtain ⟨inst, atOwn, ofModule, atCallee, result⟩ := by simpa only [bind_eq_ok] using read
    rw [← Except.ok.inj result, Hop.chars, readName_exact atOwn, readName_exact atCallee,
      ← Pieces.split_rejoin pieces]
    simp
  · cases read

/-- Parts that are read one by one are written one after the other. -/
theorem flatMap_exact {α : Type} {read : List Char → Except Flaw α} {write : α → List Char} {mark : Char}
    (exact : ∀ {part item}, read part = .ok item → write item = mark :: part) {parts : List (List Char)}
    {items : List α} (run : parts.mapM read = .ok items) : items.flatMap write = parts.flatMap (mark :: ·) :=
  congrArg List.flatten (map_eq_of_forall₂ ((mapM_eq_ok.mp run).imp fun _ _ => exact))

theorem readHierarchy_exact {word : List Char} {home : String} {hops : List Hop}
    (read : readHierarchy word = .ok (home, hops)) : home.toList ++ hops.flatMap Hop.chars = word := by
  unfold readHierarchy at read
  split at read
  · cases read
  · rename_i pieces
    obtain ⟨name, atName, found, atHops, result⟩ := by simpa only [bind_eq_ok] using read
    obtain ⟨rfl, rfl⟩ := Prod.mk.inj (Except.ok.inj result)
    rw [readName_exact atName, flatMap_exact readHop_exact atHops, Pieces.split_rejoin pieces]

theorem readReference_exact {word : List Char} {ref : String} {fields : List String}
    (read : readReference word = .ok (ref, fields)) :
    ref.toList ++ fields.flatMap (fun field => '.' :: field.toList) = word := by
  unfold readReference at read
  split at read
  · cases read
  · rename_i pieces
    obtain ⟨name, atName, found, atFields, result⟩ := by simpa only [bind_eq_ok] using read
    obtain ⟨rfl, rfl⟩ := Prod.mk.inj (Except.ok.inj result)
    rw [readName_exact atName, flatMap_exact (fun read => congrArg _ (readName_exact read)) atFields,
      Pieces.split_rejoin pieces]

/-- What is read is written as it was. -/
theorem readChars_exact {word : List Char} {target : Target} (read : readChars word = .ok target) :
    target.chars = word := by
  unfold readChars at read
  split at read
  · rename_i body
    rcases atBar : Pieces.cut '|' body with ⟨own, rest⟩
    rw [atBar] at read
    cases rest with
    | none =>
      obtain ⟨name, atName, result⟩ := bind_eq_ok.mp read
      rw [← Except.ok.inj result, chars, readName_exact atName, Pieces.eq_of_cut_none atBar]
    | some rest =>
      obtain ⟨name, atName, read⟩ := bind_eq_ok.mp read
      rcases atSelect : Pieces.cut '>' rest with ⟨hierarchy, selected⟩
      rw [atSelect] at read
      obtain ⟨⟨home, hops⟩, atHome, read⟩ := bind_eq_ok.mp read
      rw [← Pieces.eq_of_cut_some atBar, ← readName_exact atName]
      cases selected with
      | none =>
        rw [← Except.ok.inj read, chars_ofHierarchy, readHierarchy_exact atHome,
          Pieces.eq_of_cut_none atSelect]
      | some selected =>
        obtain ⟨⟨ref, fields⟩, atRef, result⟩ := bind_eq_ok.mp read
        rw [← Except.ok.inj result, chars_reference, readReference_exact atRef,
          ← Pieces.eq_of_cut_some atSelect, ← readHierarchy_exact atHome, List.append_assoc]
  · cases read

/-- Just the words of the grammar are read, each as the target that it is the text of. -/
theorem parse_eq_ok_iff {text : String} {target : Target} :
    parse text = .ok target ↔ target.Identified ∧ target.text = text := by
  constructor
  · intro read
    refine ⟨parse_identified read, ?_⟩
    rw [Target.text, readChars_exact (mapError_eq_ok.mp read), String.ofList_toList]
  · rintro ⟨names, rfl⟩
    exact parse_text names

/-- Exactly the words of the language are read as targets. -/
theorem parses_iff {text : String} : (∃ target, parse text = .ok target) ↔ text.toList ∈ Grammar.target := by
  simp only [parse_eq_ok_iff, target_spells _]
  refine exists_congr fun target => and_congr_right fun _ => ?_
  rw [Target.text, ← String.toList_inj, String.toList_ofList]

theorem parse_fails {text : String} (outside : text.toList ∉ Grammar.target) :
    ∃ flaw, parse text = .error (.malformedTarget text flaw) := by
  cases read : readChars text.toList with
  | ok target => exact absurd (parses_iff.mp ⟨target, mapError_eq_ok.mpr read⟩) outside
  | error flaw => exact ⟨flaw, by rw [parse, read]; rfl⟩

/-- The text of targets is an exact grammar: just its words are read, and any other text is refused as
malformed. What is read is written as it was, and a target that is named by identifiers is read as it was
written, so that among those the text tells them apart. -/
theorem text_exact :
    (∀ text : String, ((∃ target, parse text = .ok target) ↔ text.toList ∈ Grammar.target) ∧
      (text.toList ∉ Grammar.target →
        ∃ fault, parse text = .error fault ∧ fault.code? = some .malformedTarget) ∧
      ∀ target, parse text = .ok target → target.text = text) ∧
    (∀ target : Target, target.Identified → parse target.text = .ok target) ∧
    ∀ target other : Target, target.Identified → other.Identified →
      (target.text = other.text ↔ target = other) := by
  refine ⟨fun text => ⟨parses_iff, fun outside => ?_, fun target read => (parse_eq_ok_iff.mp read).2⟩,
    fun target names => parse_text names, fun target other names otherNames => ?_⟩
  · obtain ⟨flaw, failed⟩ := parse_fails outside
    exact ⟨_, failed, rfl⟩
  · exact ⟨eq_of_text_eq names otherNames, congrArg text⟩

theorem text_exact_sample : "~C|M/i:N/j:O>m.r.data".toList ∈ Grammar.target ∧
    "~C|M/i>r".toList ∉ Grammar.target := by
  obtain ⟨texts, -, -⟩ := text_exact
  refine ⟨(texts _).1.mp ⟨.reference ⟨"C", "M", [⟨"i", "N"⟩, ⟨"j", "O"⟩], "m", ["r", "data"]⟩, by decide⟩,
    fun inside => ?_⟩
  obtain ⟨target, read⟩ := (texts _).1.mpr inside
  have refused : parse "~C|M/i>r" = .error (.malformedTarget "~C|M/i>r" (.notHop "i")) := by decide
  rw [refused] at read
  cases read

end Target

end CircuitNames
