import CircuitNames.Proofs.NumberTexts
import CircuitNames.Proofs.SpelledExpressions
import CircuitNames.Proofs.TargetText

namespace CircuitNames

def Number.negativeZero : Number := .finite true 0 fits_zero

namespace Expr

/-- The words that mean something else than an operation where a bracket follows. -/
def keywords : List String := ["mux", "validif", "UInt", "SInt"]

/-- An identifier that names an operation wherever a bracket follows. -/
def Applicable (op : String) : Prop := isIdentifier op = true ∧ op ∉ keywords

instance (op : String) : Decidable (Applicable op) := inferInstanceAs (Decidable (_ ∧ _))

/-- Expressions whose text has one meaning. -/
def Plain : Expr → Prop := Spelled Applicable (Number.Counts Number.Exact)

end Expr

namespace ExprReader

/-- What names with dots before them are made of. -/
def dotted (c : Char) : Bool := Identifier.isTail c || c == '.'

/-- The fields that stand after an expression, each with a dot before it. -/
def fields (base : Expr) (input : List Char) : Expr × List Char :=
  ((Pieces.split '.' (input.takeWhile dotted)).tail.foldl
    (fun base name => .subfield base (String.ofList name)) base, input.dropWhile dotted)

/-- A width in angle brackets, or none. -/
def width (input : List Char) : Option (Option Number × List Char) :=
  match input with
  | '<' :: digits =>
    match Json.Reader.number digits with
    | some (n, '>' :: rest) => some (some n, rest)
    | _ => none
  | _ => some (none, input)

/-- The value of a literal, up to and with the closing bracket. -/
def literal (input : List Char) : Option (String × List Char) :=
  (Pieces.cut ')' input).2.map fun rest => (String.ofList (Pieces.cut ')' input).1, rest)

/-- What a word with operands stands for. -/
def applied (word : String) (operands : List (Expr ⊕ Number)) : Expr :=
  match word, operands with
  | "mux", [.inl cond, .inl whenTrue, .inl whenFalse] => .mux cond whenTrue whenFalse
  | "validif", [.inl cond, .inl value] => .validIf cond value
  | op, operands => .prim op (operands.filterMap Sum.getLeft?) (operands.filterMap Sum.getRight?)

/-- An expression that begins with a word, without the fields after it. -/
def afterWord (operands : List Char → Option (List (Expr ⊕ Number) × List Char)) (word : String)
    (input : List Char) :
    Option (Expr × List Char) :=
  match width input with
  | some (width, '(' :: rest) =>
    if word = "UInt" then (literal rest).map fun (value, rest) => (.uintLit value width, rest)
    else if word = "SInt" then (literal rest).map fun (value, rest) => (.sintLit value width, rest)
    else (operands rest).map fun (found, rest) => (applied word found, rest)
  | _ => some (.ref word, input)

/-- An operand: an expression, or a constant where there is a digit. -/
def operand (expr : List Char → Option (Expr × List Char)) (input : List Char) :
    Option ((Expr ⊕ Number) × List Char) :=
  if input.head?.any Char.isDigit then (Json.Reader.number input).map fun (n, rest) => (.inr n, rest)
  else (expr input).map fun (found, rest) => (.inl found, rest)

/-- What stands after the mark between two operands. -/
def afterComma : List Char → List Char
  | ',' :: ' ' :: rest => rest
  | rest => rest

mutual

/-- An expression and the input after it. -/
def expr : Nat → List Char → Option (Expr × List Char)
  | 0, _ => none
  | fuel + 1, input =>
    (afterWord (operands fuel) (String.ofList (input.takeWhile Identifier.isTail))
      (input.dropWhile Identifier.isTail)).map
      fun (base, rest) => fields base rest

/-- Operands up to and with the closing bracket. -/
def operands : Nat → List Char → Option (List (Expr ⊕ Number) × List Char)
  | 0, _ => none
  | fuel + 1, input =>
    match input with
    | ')' :: rest => some ([], rest)
    | _ => do
      let (first, rest) ← operand (expr fuel) input
      let (others, rest) ← operands fuel (afterComma rest)
      return (first :: others, rest)

end

/-- What may follow an expression. -/
def Ends (rest : List Char) : Prop := ∀ c ∈ rest.head?, c = '.' ∨ c = ',' ∨ c = ')'

/-- What may follow an operand: no field. -/
def Closes (rest : List Char) : Prop := ∀ c ∈ rest.head?, c = ',' ∨ c = ')'

theorem Closes.ends {rest : List Char} (closes : Closes rest) :
    Ends rest := fun c isFirst => .inr (closes c isFirst)

variable {rest : List Char}

theorem fields_of_closes (base : Expr) (closes : Closes rest) : fields base rest = (base, rest) := by
  cases rest with
  | nil => rfl
  | cons c more =>
    rcases closes c rfl with rfl | rfl
    · rfl
    · rfl

/-- A field that is read belongs to what stands before it. -/
theorem fields_dot (base : Expr) {name : String} (identifier : isIdentifier name = true) (ends : Ends rest) :
    fields base ('.' :: (name.toList ++ rest)) = fields (.subfield base name) rest := by
  have within : ∀ c ∈ name.toList, dotted c = true := fun c inside =>
    Bool.or_eq_true_iff.mpr (.inl (Identifier.isTail_of_mem identifier c inside))
  have clean : '.' ∉ name.toList := by
    intro inside
    exact absurd (Identifier.isTail_of_mem identifier _ inside) (by decide)
  have pieces : Pieces.split '.' (name.toList ++ rest.takeWhile dotted) =
      name.toList :: (Pieces.split '.' (rest.takeWhile dotted)).tail := by
    cases rest with
    | nil => simpa [Pieces.split] using Pieces.split_of_not_mem clean
    | cons c more =>
      rcases ends c rfl with rfl | rfl | rfl
      · exact Pieces.split_append clean _
      · simpa [dotted, Identifier.isTail, Pieces.split] using Pieces.split_of_not_mem clean
      · simpa [dotted, Identifier.isTail, Pieces.split] using Pieces.split_of_not_mem clean
  have run : ('.' :: (name.toList ++ rest)).takeWhile dotted =
      '.' :: (name.toList ++ rest.takeWhile dotted) := by
    rw [List.takeWhile_cons_of_pos rfl, List.takeWhile_append_of_pos within]
  have left : ('.' :: (name.toList ++ rest)).dropWhile dotted = rest.dropWhile dotted := by
    rw [List.dropWhile_cons_of_pos rfl, List.dropWhile_append_of_pos within]
  have split : Pieces.split '.' ('.' :: (name.toList ++ rest.takeWhile dotted)) =
      [] :: Pieces.split '.' (name.toList ++ rest.takeWhile dotted) := rfl
  rw [fields, fields, run, left, split, pieces]
  simp

end ExprReader

namespace Json.Reader

/-- The text of a count is a number again, and it begins with a digit. -/
theorem number_chars {n : Number} (counts : n.Counts Number.Exact) {rest : List Char} (stop : Stops rest) :
    number (n.chars ++ rest) = some (n, rest) ∧ ∃ c more, n.chars = c :: more ∧ c.isDigit = true := by
  obtain ⟨isCount, exact_⟩ := counts
  cases n with
  | infinite negative => cases isCount
  | finite negative units fits =>
    have positive : negative = false := by
      cases negative with
      | false => rfl
      | true =>
        have zero : (units == 0) = true := (Bool.and_eq_true_iff.mp isCount).2
        exact absurd (beq_iff_eq.mp zero) (exact_ rfl)
    subst positive
    have begins : ∃ c more, Printer.number (.finite false units fits) = c :: more ∧ c.isDigit = true := by
      by_cases zero : units = 0
      · exact ⟨'0', [], if_pos zero, rfl⟩
      · have atEnd : Stops [] := fun _ none_ => by cases none_
        obtain ⟨c, more, text, isDigit⟩ :=
          magnitude_digit (@magnitude_chars [] false _ (Number.shortest_ne_zero fits zero) atEnd)
        rw [printed_finite zero, if_neg Bool.false_ne_true]
        exact ⟨c, more, (List.append_nil _).symm.trans text, isDigit⟩
    obtain ⟨c, more, text, isDigit⟩ := begins
    have read := value_number 0 (.finite false units fits) stop
    rw [exact_.written_eq, text, List.cons_append, value_numeral 0 (.inl isDigit)] at read
    obtain ⟨⟨n, left⟩, found, same⟩ := Option.map_eq_some_iff.mp read
    obtain ⟨rfl, rfl⟩ : n = .finite false units fits ∧ left = rest := by simpa using same
    change Printer.number (.finite false units fits) = c :: more at text
    refine ⟨?_, c, more, text, isDigit⟩
    change number (Printer.number (.finite false units fits) ++ left) = _
    rw [text]
    exact found

end Json.Reader

namespace ExprReader

variable {rest : List Char}

theorem width_angled {counted : Option Number} (numerals : ∀ n ∈ counted, n.Counts Number.Exact)
    (rest : List Char) :
    width (CircuitText.angled counted ++ '(' :: rest) = some (counted, '(' :: rest) := by
  cases counted with
  | none => rfl
  | some n =>
    have stop : Json.Reader.Stops ('>' :: '(' :: rest) := by
      intro c isFirst
      obtain rfl := Option.some.inj isFirst
      decide
    have read := (Json.Reader.number_chars (numerals n rfl) stop).1
    simp [CircuitText.angled, width, read]

theorem literal_value {value : String} (isInteger : Decode.isInteger value = true) (rest : List Char) :
    literal (value.toList ++ ')' :: rest) = some (value, rest) := by
  have clean : ')' ∉ value.toList := by
    intro inside
    exact absurd (Expr.mem_of_isInteger isInteger _ inside) (by decide)
  rw [literal, Pieces.cut_append clean]
  simp

theorem afterWord_ref (operands : List Char → Option (List (Expr ⊕ Number) × List Char)) (word : String)
    (ends : Ends rest) :
    afterWord operands word rest = some (.ref word, rest) := by
  cases rest with
  | nil => rfl
  | cons c more => rcases ends c rfl with rfl | rfl | rfl <;> rfl

theorem afterWord_applied {operands : List Char → Option (List (Expr ⊕ Number) × List Char)} {word : String}
    {found : List (Expr ⊕ Number)} {input : List Char} (noUInt : word ≠ "UInt") (noSInt : word ≠ "SInt")
    (read : operands input = some (found, rest)) :
    afterWord operands word ('(' :: input) = some (applied word found, rest) := by
  simp [afterWord, width, noUInt, noSInt, read]

theorem applied_op {op : String} (applicable : Expr.Applicable op) (args : List Expr) (consts : List Number) :
    applied op (args.map Sum.inl ++ consts.map Sum.inr) = .prim op args consts := by
  have filtered :
      (args.map Sum.inl ++ consts.map Sum.inr : List (Expr ⊕ Number)).filterMap Sum.getLeft? = args ∧
      (args.map Sum.inl ++ consts.map Sum.inr : List (Expr ⊕ Number)).filterMap Sum.getRight? = consts := by
    simp [List.filterMap_append, List.filterMap_map, Function.comp_def]
  unfold applied
  split
  · exact absurd (by decide) applicable.2
  · exact absurd (by decide) applicable.2
  · rw [filtered.1, filtered.2]

/-- A part that is read as an operand, whatever closes it. -/
structure Reads (part : List Char) (found : Expr ⊕ Number) : Prop where
  begins : ∃ c more, part = c :: more ∧ c ≠ ')'
  reads : ∀ rest, Closes rest →
    ∃ enough, ∀ fuel ≥ enough, operand (expr fuel) (part ++ rest) = some (found, rest)

/-- What stands before the closing bracket is one part, what follows it, and the other parts after that. -/
theorem commaSeparated_cons (part : List Char) (parts : List (List Char)) (rest : List Char) :
    ∃ next, CircuitText.commaSeparated (part :: parts) ++ ')' :: rest = part ++ next ∧ Closes next ∧
      afterComma next = CircuitText.commaSeparated parts ++ ')' :: rest := by
  cases parts with
  | nil =>
    refine ⟨')' :: rest, by simp [CircuitText.commaSeparated], ?_, rfl⟩
    exact fun c isFirst => .inr (Option.some.inj isFirst).symm
  | cons second parts =>
    refine ⟨',' :: ' ' :: (CircuitText.commaSeparated (second :: parts) ++ ')' :: rest), ?_, ?_, rfl⟩
    · simp [CircuitText.commaSeparated, List.intercalate_cons_cons]
    · exact fun c isFirst => .inl (Option.some.inj isFirst).symm

theorem operands_cons {fuel : Nat} {c : Char} {more next rest : List Char} {first : Expr ⊕ Number}
    {others : List (Expr ⊕ Number)} (noEnd : c ≠ ')')
    (read : operand (expr fuel) (c :: more) = some (first, next))
    (later : operands fuel (afterComma next) = some (others, rest)) :
    operands (fuel + 1) (c :: more) = some (first :: others, rest) := by
  rw [operands, read]
  · change (operands fuel (afterComma next)).bind _ = _
    rw [later]
    rfl
  · exact fun _ same => noEnd (List.cons.inj same).1

/-- Texts that are read one by one are read as a list once they stand between commas, with enough fuel for the
longest of them. -/
theorem operands_read {parts : List (List Char)} {found : List (Expr ⊕ Number)}
    (each : List.Forall₂ Reads parts found) (rest : List Char) : ∃ enough, ∀ fuel ≥ enough,
      operands fuel (CircuitText.commaSeparated parts ++ ')' :: rest) = some (found, rest) := by
  induction each with
  | nil =>
    refine ⟨1, fun fuel large => ?_⟩
    obtain ⟨fuel, rfl⟩ := Nat.exists_eq_add_of_le' large
    rfl
  | @cons part operand parts found first _ ih =>
    obtain ⟨next, text, closes, after⟩ := commaSeparated_cons part parts rest
    obtain ⟨enough, early⟩ := first.reads next closes
    obtain ⟨enoughLater, later⟩ := ih
    obtain ⟨c, more, rfl, noEnd⟩ := first.begins
    refine ⟨max enough enoughLater + 1, fun fuel large => ?_⟩
    obtain ⟨fuel, rfl⟩ := Nat.exists_eq_add_of_le' (Nat.le_trans (Nat.le_add_left 1 _) large)
    rw [text]
    exact operands_cons noEnd (early fuel (by omega)) (after.symm ▸ later fuel (by omega))

theorem reads_count {n : Number} (counts : n.Counts Number.Exact) : Reads n.chars (.inr n) := by
  have atEnd : Json.Reader.Stops [] := fun _ none_ => by cases none_
  obtain ⟨-, c, more, text, isDigit⟩ := Json.Reader.number_chars counts atEnd
  refine ⟨⟨c, more, text, ?_⟩, fun rest closes => ⟨0, fun fuel _ => ?_⟩⟩
  · rintro rfl
    cases isDigit
  · have stop : Json.Reader.Stops rest := by
      intro d isFirst
      rcases closes d isFirst with rfl | rfl <;> decide
    have read := (Json.Reader.number_chars counts stop).1
    rw [text, List.cons_append] at read ⊢
    simp [operand, isDigit, read]

variable {rest : List Char} {fuel : Nat}

theorem expr_word {name : String} (identifier : isIdentifier name = true)
    (stop : ∀ c ∈ rest.head?, Identifier.isTail c = false) : expr (fuel + 1) (name.toList ++ rest) =
      (afterWord (operands fuel) name rest).map fun (base, rest) => fields base rest := by
  have within := Identifier.isTail_of_mem identifier
  rw [expr, takeWhile_front within stop, dropWhile_front within stop, String.ofList_toList]

/-- An expression that is read up to what ends it is read as an operand. -/
theorem reads_expr {e : Expr} (plain : e.Plain) (read : ∀ {rest}, Ends rest → ∃ enough, ∀ fuel ≥ enough,
    expr fuel (e.chars ++ rest) = some (fields e rest)) : Reads e.chars (.inl e) := by
  obtain ⟨c, more, text, head⟩ :=
    Expr.chars_begin (fun _ => id) (fun _ applicable => Expr.begins_of_isIdentifier applicable.1) e plain
  have noDigit : c.isDigit = false := by
    refine Identifier.of_isTail (P := fun c => Identifier.isHead c = true → c.isDigit = false)
      (by decide +kernel)
      (Identifier.isTail_of_isHead head) head
  refine ⟨⟨c, more, text, ?_⟩, fun rest closes => ?_⟩
  · rintro rfl
    cases head
  · obtain ⟨enough, read⟩ := read closes.ends
    refine ⟨enough, fun fuel large => ?_⟩
    have found := read fuel large
    rw [text, List.cons_append, fields_of_closes _ closes] at found
    rw [text, List.cons_append]
    simp [operand, noDigit, found]

/-- A word before parentheses is an operation, unless it is one of the two that literals begin with. -/
theorem expr_applied {word : String} {e : Expr} (identifier : isIdentifier word = true)
    (noUInt : word ≠ "UInt") (noSInt : word ≠ "SInt") {parts : List (List Char)}
    {found : List (Expr ⊕ Number)} (each : List.Forall₂ Reads parts found) (meaning : applied word found = e)
    (rest : List Char) : ∃ enough, ∀ fuel ≥ enough,
      expr fuel (word.toList ++ '(' :: CircuitText.commaSeparated parts ++ [')'] ++ rest) =
        some (fields e rest) := by
  obtain ⟨enough, read⟩ := operands_read each rest
  refine ⟨enough + 1, fun fuel large => ?_⟩
  obtain ⟨fuel, rfl⟩ := Nat.exists_eq_add_of_le' (Nat.le_trans (Nat.le_add_left 1 _) large)
  have stop : ∀ c ∈ ('(' :: (CircuitText.commaSeparated parts ++ ')' :: rest)).head?,
      Identifier.isTail c = false := by
    intro c isFirst
    obtain rfl := Option.some.inj isFirst
    rfl
  simp only [List.append_assoc, List.cons_append, List.nil_append]
  rw [expr_word identifier stop, afterWord_applied noUInt noSInt (read fuel (by omega)), meaning]
  rfl

theorem stop_angled (counted : Option Number) (rest : List Char) :
    ∀ c ∈ (CircuitText.angled counted ++ '(' :: rest).head?, Identifier.isTail c = false := by
  intro c isFirst
  cases counted with
  | none =>
    obtain rfl := Option.some.inj isFirst
    rfl
  | some n =>
    obtain rfl := Option.some.inj isFirst
    rfl

/-- A literal is told from an operation by its word. -/
theorem expr_literal {value : String} {counted : Option Number} (isInteger : Decode.isInteger value = true)
    (numerals : ∀ n ∈ counted, n.Counts Number.Exact) (fuel : Nat) (rest : List Char) :
    expr (fuel + 1) ((Expr.uintLit value counted).chars ++ rest) =
      some (fields (.uintLit value counted) rest) ∧
    expr (fuel + 1) ((Expr.sintLit value counted).chars ++ rest) =
      some (fields (.sintLit value counted) rest) := by
  have sized := width_angled numerals (value.toList ++ ')' :: rest)
  have written (word : String) : word.toList ++ CircuitText.angled counted ++
      '(' :: value.toList ++ [')'] ++ rest =
      word.toList ++ (CircuitText.angled counted ++ '(' :: (value.toList ++ ')' :: rest)) := by
    simp only [List.append_assoc, List.cons_append, List.nil_append]
  constructor
  · change expr (fuel + 1)
      ("UInt".toList ++ CircuitText.angled counted ++ '(' :: value.toList ++ [')'] ++ rest) = _
    rw [written, expr_word (by decide) (stop_angled counted _)]
    simp [afterWord, sized, literal_value isInteger]
  · change expr (fuel + 1)
      ("SInt".toList ++ CircuitText.angled counted ++ '(' :: value.toList ++ [')'] ++ rest) = _
    rw [written, expr_word (by decide) (stop_angled counted _)]
    simp [afterWord, sized, literal_value isInteger]

mutual

/-- The text of an expression is read as the expression, with the fields that follow it. -/
theorem expr_read : ∀ e : Expr, e.Plain → ∀ {rest}, Ends rest → ∃ enough, ∀ fuel ≥ enough,
    expr fuel (e.chars ++ rest) = some (fields e rest)
  | .ref name, identifier, rest, ends => by
    refine ⟨1, fun fuel large => ?_⟩
    obtain ⟨fuel, rfl⟩ := Nat.exists_eq_add_of_le' large
    have stop : ∀ c ∈ rest.head?, Identifier.isTail c = false := by
      intro c isFirst
      rcases ends c isFirst with rfl | rfl | rfl <;> rfl
    change expr (fuel + 1) (name.toList ++ rest) = _
    rw [expr_word identifier stop, afterWord_ref _ _ ends]
    rfl
  | .subfield base name, plain, rest, ends => by
    have dot : Ends ('.' :: (name.toList ++ rest)) := fun c isFirst => .inl (Option.some.inj isFirst).symm
    obtain ⟨enough, read⟩ := expr_read base plain.1 dot
    refine ⟨enough, fun fuel large => ?_⟩
    change expr fuel (base.chars ++ '.' :: name.toList ++ rest) = _
    rw [List.append_assoc, List.cons_append, read fuel large, fields_dot base plain.2 ends]
  | .uintLit value counted, plain, rest, _ => by
    refine ⟨1, fun fuel large => ?_⟩
    obtain ⟨fuel, rfl⟩ := Nat.exists_eq_add_of_le' large
    exact (expr_literal plain.1 plain.2 fuel rest).1
  | .sintLit value counted, plain, rest, _ => by
    refine ⟨1, fun fuel large => ?_⟩
    obtain ⟨fuel, rfl⟩ := Nat.exists_eq_add_of_le' large
    exact (expr_literal plain.1 plain.2 fuel rest).2
  | .prim op args consts, plain, rest, _ => by
    obtain ⟨applicable, plainArgs, numerals⟩ := plain
    have constants : List.Forall₂ Reads (consts.map Number.chars) (consts.map Sum.inr) :=
      List.forall₂_map_left_iff.mpr (List.forall₂_map_right_iff.mpr (List.forall₂_same.mpr fun n inside =>
        reads_count (numerals n inside)))
    exact expr_applied applicable.1 (fun same => applicable.2 (by simp [same, Expr.keywords]))
      (fun same => applicable.2 (by simp [same, Expr.keywords]))
      (List.rel_append (each_expr_read args plainArgs) constants) (applied_op applicable args consts) rest
  | .mux cond whenTrue whenFalse, plain, rest, _ => by
    obtain ⟨condOk, trueOk, falseOk⟩ := plain
    have each : List.Forall₂ Reads [cond.chars, whenTrue.chars, whenFalse.chars]
        [.inl cond, .inl whenTrue, .inl whenFalse] :=
      .cons (reads_expr condOk (expr_read cond condOk)) (.cons (reads_expr trueOk (expr_read whenTrue trueOk))
        (.cons (reads_expr falseOk (expr_read whenFalse falseOk)) .nil))
    exact expr_applied (show isIdentifier "mux" = true by decide) (by decide) (by decide) each rfl rest
  | .validIf cond value, plain, rest, _ => by
    obtain ⟨condOk, valueOk⟩ := plain
    have each : List.Forall₂ Reads [cond.chars, value.chars] [.inl cond, .inl value] :=
      .cons (reads_expr condOk (expr_read cond condOk))
        (.cons (reads_expr valueOk (expr_read value valueOk)) .nil)
    exact expr_applied (show isIdentifier "validif" = true by decide) (by decide) (by decide) each rfl rest

theorem each_expr_read : ∀ es : List Expr, Expr.SpelledAll Expr.Applicable (Number.Counts Number.Exact) es →
    List.Forall₂ Reads (Expr.charsAll es) (es.map Sum.inl)
  | [], _ => .nil
  | e :: rest, plain => .cons (reads_expr plain.1 (expr_read e plain.1)) (each_expr_read rest plain.2)

end

end ExprReader

namespace Expr

theorem exact_of_counts {n : Number} (counts : n.Counts fun _ => True) (unsigned : n ≠ .negativeZero) :
    n.Counts Number.Exact := by
  refine ⟨counts.isCount, ?_⟩
  cases n with
  | infinite negative => cases counts.isCount
  | finite negative units fits =>
    rintro rfl rfl
    exact unsigned rfl

variable {expr other : Expr}

/-- An expression that was read can be read back from its text, if its operations can be told from literals
and no count is a negative zero. -/
theorem Decoded.plain (decoded : expr.Decoded) (applicable : ∀ op ∈ expr.ops, Applicable op)
    (unsigned : ∀ n ∈ expr.counts, n ≠ .negativeZero) : expr.Plain := by
  obtain ⟨label, value, read⟩ := decoded
  have stems : Decode.Stems (fun _ => True) Decode.expr expr :=
    ⟨label, value, fun v _ => Json.regular_any v, read⟩
  obtain ⟨identified, formed⟩ := Decode.expr_legible expr stems
  exact spelled_of identified formed (fun op held _ => applicable op held) fun n held counts =>
    exact_of_counts counts (unsigned n held)

/-- Reading the text of an expression to its end gives the expression. -/
theorem Plain.read (plain : expr.Plain) :
    ∃ enough, ∀ fuel ≥ enough, ExprReader.expr fuel expr.chars = some (expr, []) := by
  have atEnd : ExprReader.Closes [] := fun _ none_ => by cases none_
  obtain ⟨enough, read⟩ := ExprReader.expr_read expr plain atEnd.ends
  rw [List.append_nil, ExprReader.fields_of_closes expr atEnd] at read
  exact ⟨enough, read⟩

/-- Two expressions that are read from values are the same if their texts are. Only an operation under another
name than an identifier, or under one of the words with a meaning of their own, and a zero with a sign could
be mistaken. -/
theorem text_unambiguous (decoded : expr.Decoded) (decodedOther : other.Decoded)
    (applicable : ∀ op ∈ expr.ops ++ other.ops, Applicable op)
    (unsigned : ∀ n ∈ expr.counts ++ other.counts, n ≠ .negativeZero) (same : expr.text = other.text) :
    expr = other := by
  obtain ⟨applicableOwn, applicableOther⟩ := List.forall_mem_append.mp applicable
  obtain ⟨unsignedOwn, unsignedOther⟩ := List.forall_mem_append.mp unsigned
  obtain ⟨enough, read⟩ := (decoded.plain applicableOwn unsignedOwn).read
  obtain ⟨enoughOther, readOther⟩ := (decodedOther.plain applicableOther unsignedOther).read
  have chars : expr.chars = other.chars := String.ofList_injective same
  have found := read (max enough enoughOther) (Nat.le_max_left _ _)
  rw [chars, readOther _ (Nat.le_max_right _ _)] at found
  exact (Prod.mk.inj (Option.some.inj found)).1.symm

namespace Sample

def ref (name : String) : Json := .object [("kind", .string "ref"), ("name", .string name)]

def enable : Json := .object [("kind", .string "subfield"), ("expr", ref "io"), ("name", .string "en")]

def literal :
    Json := .object [("kind", .string "uint_lit"), ("value", .string "007"), ("width", .number .zero)]

def operation :
    Json := .object [("kind", .string "prim"), ("op", .string "cat"), ("args", .array [ref "a", ref "b"]),
  ("consts", .array [])]

/-- The same operation, without the constants that it does not have. -/
def abridged :
    Json := .object [("args", .array [ref "a", ref "b"]), ("op", .string "cat"), ("kind", .string "prim")]

def choice (otherwise : Json) : Json :=
  .object [("kind", .string "mux"), ("cond", enable), ("tval", literal), ("fval", otherwise)]

def parsed : Expr :=
  .mux (.subfield (.ref "io") "en") (.uintLit "007" (some .zero)) (.prim "cat" [.ref "a", .ref "b"] [])

set_option maxRecDepth 3000 in
theorem operation_read (label : String) :
    Decode.expr label (some operation) = .ok (.prim "cat" [.ref "a", .ref "b"] []) := by
  cbv

set_option maxRecDepth 3000 in
theorem abridged_read (label : String) :
    Decode.expr label (some abridged) = .ok (.prim "cat" [.ref "a", .ref "b"] []) := by
  cbv

theorem choice_read {otherwise : Json}
    (read : ∀ label, Decode.expr label (some otherwise) = .ok (.prim "cat" [.ref "a", .ref "b"] []))
    (label : String) :
    Decode.expr label (some (choice otherwise)) = .ok parsed := by
  have enabled (label : String) : Decode.expr label (some enable) = .ok (.subfield (.ref "io") "en") := by cbv
  have counted (label : String) : Decode.optionalCount label (some (.number .zero)) = .ok (some .zero) := by
    simp [Decode.optionalCount, Json.asCount, Number.isCount, Number.zero]
    rfl
  have valued (label : String) : Decode.expr label (some literal) = .ok (.uintLit "007" (some .zero)) :=
    Decode.expr_eq_ok.mpr ⟨_, rfl, ⟨by cbv, by cbv⟩, by cbv, counted _⟩
  exact Decode.expr_eq_ok.mpr ⟨_, rfl, ⟨by cbv, by cbv⟩, enabled _, valued _, read _⟩

end Sample

/-- What is read from two values has one text here, and so it is one expression. -/
theorem text_unambiguous_sample : ∃ expr other : Expr,
    Decode.expr "circuit" (some (Sample.choice Sample.operation)) = .ok expr ∧
    Decode.expr "circuit" (some (Sample.choice Sample.abridged)) = .ok other ∧
    expr.text = "mux(io.en, UInt<0>(007), cat(a, b))" ∧ other.text = expr.text ∧ expr = other := by
  have read := Sample.choice_read Sample.operation_read "circuit"
  have readAgain := Sample.choice_read Sample.abridged_read "circuit"
  have text : Sample.parsed.text = "mux(io.en, UInt<0>(007), cat(a, b))" := by decide +kernel
  refine ⟨_, _, read, readAgain, text, rfl, ?_⟩
  exact text_unambiguous ⟨_, _, read⟩ ⟨_, _, readAgain⟩ (by decide) (by decide) rfl

end Expr

end CircuitNames
