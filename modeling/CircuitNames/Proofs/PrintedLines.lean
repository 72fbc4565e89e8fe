import CircuitNames.Proofs.ModuleLayout
import CircuitNames.Proofs.NumberTexts
import CircuitNames.Proofs.SpelledExpressions
import CircuitNames.Proofs.TargetText

namespace CircuitNames

/-- Splitting at a mark that stands between two texts splits each of them on its own. -/
theorem Pieces.split_append_mark (mark : Char) (before after : List Char) :
    split mark (before ++ mark :: after) = split mark before ++ split mark after := by
  induction before with
  | nil => simp [split]
  | cons c rest ih =>
    obtain ⟨first, more, pieces⟩ := List.exists_cons_of_ne_nil (split_ne_nil mark rest)
    by_cases isMark : c = mark
    · simp [split, isMark, ih]
    · simp [split, isMark, ih, pieces]

/-- A text without a line break. -/
def OneLine (text : String) : Prop := '\n' ∉ text.toList

instance (text : String) : Decidable (OneLine text) := inferInstanceAs (Decidable (¬ _))

/-- A text on one line that is not blank. -/
structure Shown (text : String) : Prop where
  visible : ∃ c ∈ text.toList, c ≠ ' '
  oneLine : OneLine text

theorem OneLine.append {front rest : String} (first : OneLine front) (later : OneLine rest) :
    OneLine (front ++ rest) := by
  unfold OneLine
  rw [String.toList_append, List.mem_append, not_or]
  exact ⟨first, later⟩

theorem Shown.append {front rest : String} (shown : Shown front) (later : OneLine rest) :
    Shown (front ++ rest) := by
  obtain ⟨⟨c, inside, visible⟩, single⟩ := shown
  refine ⟨⟨c, ?_, visible⟩, single.append later⟩
  rw [String.toList_append]
  exact List.mem_append_left _ inside

theorem shown_iff {text : String} : Shown text ↔ text.toList.any (· != ' ') = true ∧ '\n' ∉ text.toList := by
  refine ⟨fun shown => ⟨?_, shown.oneLine⟩, fun both => ⟨?_, both.2⟩⟩
  · simpa using shown.visible
  · simpa using both.1

theorem oneLine_of_isIdentifier {name : String} (identifier : isIdentifier name = true) : OneLine name := by
  intro inside
  exact absurd (Identifier.isTail_of_mem identifier _ inside) (by decide)

theorem oneLine_of_isInteger {value : String} (isInteger : Decode.isInteger value = true) :
    OneLine value := by
  intro inside
  exact absurd (Expr.mem_of_isInteger isInteger _ inside) (by decide)

namespace Number

/-- What the text of a number is made of, apart from its digits. -/
def marks : List Char := ['.', 'e', '+', '-']

theorem mem_layout {digits : List Char} (areDigits : ∀ c ∈ digits, c.isDigit = true) (point : Int) :
    ∀ c ∈ layout digits point, c.isDigit = true ∨ c ∈ marks := by
  have own : ∀ c ∈ digits, c.isDigit = true ∨ c ∈ marks := fun c inside => .inl (areDigits c inside)
  have zeros (count : Nat) : ∀ c ∈ List.replicate count '0', c.isDigit = true ∨ c ∈ marks :=
    fun c inside => .inl (List.eq_of_mem_replicate inside ▸ rfl)
  have power (n : Nat) : ∀ c ∈ Nat.toDigits 10 n, c.isDigit = true ∨ c ∈ marks :=
    fun c inside => .inl (Nat.isDigit_of_mem_toDigits (by decide) (by decide) inside)
  unfold layout
  dsimp only
  split
  · exact List.forall_mem_append.mpr ⟨own, zeros _⟩
  split
  · have whole : ∀ c ∈ digits.take point.toNat, c.isDigit = true ∨ c ∈ marks :=
      fun c early => own c (List.mem_of_mem_take early)
    have fraction : ∀ c ∈ digits.drop point.toNat, c.isDigit = true ∨ c ∈ marks :=
      fun c late => own c (List.mem_of_mem_drop late)
    exact List.forall_mem_append.mpr ⟨whole, List.forall_mem_cons.mpr ⟨.inr (by decide), fraction⟩⟩
  split
  · refine List.forall_mem_append.mpr ⟨List.forall_mem_cons.mpr ⟨.inl rfl, ?_⟩, own⟩
    exact List.forall_mem_cons.mpr ⟨.inr (by decide), zeros _⟩
  · refine List.forall_mem_append.mpr ⟨?_, List.forall_mem_cons.mpr ⟨.inr (by decide), ?_⟩⟩
    · split
      · obtain ⟨lead, rest⟩ := List.forall_mem_cons.mp own
        exact List.forall_mem_cons.mpr ⟨lead, List.forall_mem_cons.mpr ⟨.inr (by decide), rest⟩⟩
      · exact own
    · exact List.forall_mem_cons.mpr ⟨.inr (by split <;> decide), power _⟩

theorem Decimal.chars_oneLine (decimal : Decimal) : '\n' ∉ decimal.chars := by
  have digits : ∀ c ∈ ((Nat.toDigits 10 decimal.digits).reverse.dropWhile (· == '0')).reverse,
      c.isDigit = true :=
    fun c within => Nat.isDigit_of_mem_toDigits (by decide) (by decide)
      (List.mem_reverse.mp ((List.dropWhile_sublist _).subset (List.mem_reverse.mp within)))
  intro inside
  rw [Decimal.chars] at inside
  exact absurd (mem_layout digits _ _ inside) (by decide)

theorem chars_oneLine (n : Number) : '\n' ∉ n.chars := by
  cases n with
  | infinite negative => cases negative <;> decide
  | finite negative units fits =>
    unfold chars
    dsimp only
    split
    · decide
    · split
      · exact fun inside => (shortest units).chars_oneLine (List.mem_of_ne_of_mem (by decide) inside)
      · exact (shortest units).chars_oneLine

theorem text_oneLine (n : Number) : OneLine n.text := by
  unfold OneLine text
  rw [String.toList_ofList]
  exact n.chars_oneLine

end Number

theorem quoted_oneLine (text : String) : OneLine (quoted text) := by
  have controls : ∀ code < 32, '\n' ∉ Quoted.escape (Char.ofNat code) := by decide
  have escaped (c : Char) : '\n' ∉ Quoted.escape c := by
    by_cases control : c.toNat < 32
    · simpa only [Char.ofNat_toNat] using controls c.toNat control
    · have other : '\n' ≠ c := by
        rintro rfl
        exact control (by decide)
      unfold Quoted.escape
      split_ifs <;> simp [other]
  unfold OneLine quoted Quoted.chars
  rw [String.toList_ofList]
  simp [escaped]

theorem angled_oneLine (width : Option Number) : '\n' ∉ CircuitText.angled width := by
  cases width with
  | none => exact List.not_mem_nil
  | some n =>
    have own := n.chars_oneLine
    simp [CircuitText.angled, own]

theorem GroundType.text_oneLine (type : GroundType) : OneLine type.text := by
  cases type with
  | uint width | sint width | analog width =>
    have own := angled_oneLine width
    simp [OneLine, text, own]
  | clock | reset | asyncReset => simp [OneLine, text]

theorem commaSeparated_oneLine {parts : List (List Char)} (each : ∀ part ∈ parts, '\n' ∉ part) :
    '\n' ∉ CircuitText.commaSeparated parts := by
  unfold CircuitText.commaSeparated
  induction parts with
  | nil => exact List.not_mem_nil
  | cons part rest ih =>
    obtain ⟨own, others⟩ := List.forall_mem_cons.mp each
    cases rest with
    | nil => rwa [List.intercalate_singleton]
    | cons next rest =>
      rw [List.intercalate_cons_cons]
      simp [own, ih others]

namespace Expr

variable {counted : Number → Prop}

mutual

theorem chars_oneLine : ∀ e : Expr, e.Spelled OneLine counted → '\n' ∉ e.chars
  | .ref name, identifier => oneLine_of_isIdentifier identifier
  | .subfield base name, spelled => by
    have front := chars_oneLine base spelled.1
    have last : '\n' ∉ name.toList := oneLine_of_isIdentifier spelled.2
    change '\n' ∉ base.chars ++ '.' :: name.toList
    simp [front, last]
  | .uintLit value width, spelled => by
    have own : '\n' ∉ value.toList := oneLine_of_isInteger spelled.1
    change '\n' ∉ "UInt".toList ++ CircuitText.angled width ++ '(' :: value.toList ++ [')']
    simp [own, angled_oneLine]
  | .sintLit value width, spelled => by
    have own : '\n' ∉ value.toList := oneLine_of_isInteger spelled.1
    change '\n' ∉ "SInt".toList ++ CircuitText.angled width ++ '(' :: value.toList ++ [')']
    simp [own, angled_oneLine]
  | .prim op args consts, spelled => by
    have own : '\n' ∉ op.toList := spelled.1
    have constants : ∀ part ∈ consts.map Number.chars, '\n' ∉ part :=
      List.forall_mem_map.mpr fun n _ => n.chars_oneLine
    have operands :=
      commaSeparated_oneLine (List.forall_mem_append.mpr ⟨charsAll_oneLine args spelled.2.1, constants⟩)
    change '\n' ∉ op.toList ++
      '(' :: CircuitText.commaSeparated (charsAll args ++ consts.map Number.chars) ++ [')']
    simp [own, operands]
  | .mux cond whenTrue whenFalse, spelled => by
    have first := chars_oneLine cond spelled.1
    have second := chars_oneLine whenTrue spelled.2.1
    have third := chars_oneLine whenFalse spelled.2.2
    have parts : ∀ part ∈ [cond.chars, whenTrue.chars, whenFalse.chars], '\n' ∉ part := by
      simp [first, second, third]
    change '\n' ∉ "mux(".toList ++
      CircuitText.commaSeparated [cond.chars, whenTrue.chars, whenFalse.chars] ++ [')']
    simp [commaSeparated_oneLine parts]
  | .validIf cond value, spelled => by
    have first := chars_oneLine cond spelled.1
    have second := chars_oneLine value spelled.2
    have parts : ∀ part ∈ [cond.chars, value.chars], '\n' ∉ part := by simp [first, second]
    change '\n' ∉ "validif(".toList ++ CircuitText.commaSeparated [cond.chars, value.chars] ++ [')']
    simp [commaSeparated_oneLine parts]

theorem charsAll_oneLine : ∀ es : List Expr, SpelledAll OneLine counted es → ∀ part ∈ charsAll es, '\n' ∉ part
  | [], _ => List.forall_mem_nil _
  | e :: rest, spelled =>
    List.forall_mem_cons.mpr ⟨chars_oneLine e spelled.1, charsAll_oneLine rest spelled.2⟩

end

theorem text_oneLine {e : Expr} (spelled : e.Spelled OneLine counted) : OneLine e.text := by
  unfold OneLine Expr.text
  rw [String.toList_ofList]
  exact chars_oneLine e spelled

end Expr

namespace Stmt

/-- The operations in the expressions of a statement, without those in the statements it holds. -/
def ops (stmt : Stmt) : List String := stmt.ownExprs.flatMap Expr.ops

/-- A statement, without those it holds, that is printed on lines of its own. -/
structure Inline (stmt : Stmt) : Prop where
  legible : stmt.Legible fun _ => True
  ops : ∀ op ∈ stmt.ops, OneLine op

variable {stmt : Stmt}

theorem Inline.expr (inline : stmt.Inline) : ∀ e ∈ stmt.ownExprs, '\n' ∉ e.text.toList := by
  obtain ⟨-, -, exprs⟩ := legible_iff.mp inline.legible
  intro e held
  obtain ⟨identified, formed⟩ := exprs e held
  exact Expr.text_oneLine (Expr.spelled_of identified formed
    (fun op inside _ => inline.ops op (List.mem_flatMap.mpr ⟨e, held, inside⟩)) fun _ _ _ => trivial)

theorem Inline.named (inline : stmt.Inline) :
    ∀ name ∈ (stmt.declaration?.map Declaration.names).getD [], OneLine name := by
  obtain ⟨names, -, -⟩ := legible_iff.mp inline.legible
  exact fun name inside => oneLine_of_isIdentifier (names name inside)

end Stmt

theorem MemDecl.lines_shown {decl : MemDecl}
    (named : ∀ name ∈ decl.name :: decl.portNames, OneLine name) (level : Nat) :
    ∀ line ∈ decl.lines level, Shown line.content := by
  obtain ⟨own, ports⟩ := List.forall_mem_cons.mp named
  obtain ⟨ports, both⟩ := List.forall_mem_append.mp ports
  obtain ⟨reads, writes⟩ := List.forall_mem_append.mp ports
  have name : '\n' ∉ decl.name.toList := own
  have number (n : Number) : '\n' ∉ n.text.toList := n.text_oneLine
  have typed : '\n' ∉ decl.dataType.text.toList := decl.dataType.text_oneLine
  have order : '\n' ∉ decl.readUnderWrite.name.toList := by
    cases decl.readUnderWrite <;> simp [ReadUnderWrite.name]
  have listed (label : String) (visible : Shown label) {names : List String}
      (each : ∀ name ∈ names, OneLine name) :
      ∀ line ∈ names.map fun port => (⟨level + 1, label ++ port⟩ : CircuitText.Line), Shown line.content :=
    List.forall_mem_map.mpr fun name held => visible.append (each name held)
  have last : Shown s!"read-under-write => {decl.readUnderWrite.name}" := by simp [shown_iff, toString, order]
  refine List.forall_mem_append.mpr
    ⟨List.forall_mem_append.mpr ⟨List.forall_mem_append.mpr ⟨List.forall_mem_append.mpr ⟨?_,
    listed "reader => " (shown_iff.mpr (by simp)) reads⟩,
      listed "writer => " (shown_iff.mpr (by simp)) writes⟩,
    listed "readwriter => " (shown_iff.mpr (by simp)) both⟩, List.forall_mem_singleton.mpr last⟩
  simp [shown_iff, toString, name, number, typed]

namespace Stmt

mutual

/-- Each line of a statement shows something and is one line of the text, as long as no name that is printed
as it is breaks a line. -/
theorem lines_shown : ∀ (stmt : Stmt) (level : Nat), (∀ part ∈ stmt.walk, part.Inline) →
    ∀ line ∈ lines level stmt, Shown line.content
  | .wire name type, level, inline => by
    have named : '\n' ∉ name.toList := (inline _ (mem_walk_self _)).named name (List.mem_singleton_self name)
    have typed : '\n' ∉ type.text.toList := type.text_oneLine
    refine List.forall_mem_singleton.mpr ?_
    simp [shown_iff, toString, named, typed]
  | .reg name type clock reset, level, inline => by
    have own := inline _ (mem_walk_self _)
    have named : '\n' ∉ name.toList := own.named name (List.mem_singleton_self name)
    have typed : '\n' ∉ type.text.toList := type.text_oneLine
    have clocked : '\n' ∉ clock.text.toList := by
      cases reset <;> exact own.expr clock (by simp [ownExprs])
    have resets : '\n' ∉ (resetText reset).toList := by
      cases reset with
      | none => exact List.not_mem_nil
      | some reset =>
        have signal : '\n' ∉ reset.signal.text.toList := own.expr _ (by simp [ownExprs])
        have init : '\n' ∉ reset.init.text.toList := own.expr _ (by simp [ownExprs])
        change '\n' ∉ (" with : (reset => (" ++ reset.signal.text ++ ", " ++ reset.init.text ++ "))").toList
        simp [signal, init]
    refine List.forall_mem_singleton.mpr ?_
    simp [shown_iff, toString, named, typed, clocked, resets]
  | .node name value, level, inline => by
    have own := inline _ (mem_walk_self _)
    have named : '\n' ∉ name.toList := own.named name (List.mem_singleton_self name)
    have written : '\n' ∉ value.text.toList := own.expr value List.mem_cons_self
    refine List.forall_mem_singleton.mpr ?_
    simp [shown_iff, toString, named, written]
  | .inst name module, level, inline => by
    have own := inline _ (mem_walk_self _)
    have named : '\n' ∉ name.toList := own.named name List.mem_cons_self
    have called : '\n' ∉ module.toList :=
      own.named module (List.mem_cons_of_mem _ (List.mem_singleton_self module))
    refine List.forall_mem_singleton.mpr ?_
    simp [shown_iff, toString, named, called]
  | .mem decl, level, inline => MemDecl.lines_shown (inline _ (mem_walk_self _)).named level
  | .connect loc expr, level, inline => by
    have own := inline _ (mem_walk_self _)
    have written : '\n' ∉ expr.text.toList := own.expr expr (by simp [ownExprs])
    have located : '\n' ∉ loc.text.toList := own.expr loc List.mem_cons_self
    refine List.forall_mem_singleton.mpr ?_
    simp [shown_iff, toString, located, written]
  | .invalidate expr, level, inline => by
    have written : '\n' ∉ expr.text.toList := (inline _ (mem_walk_self _)).expr expr List.mem_cons_self
    refine List.forall_mem_singleton.mpr ?_
    simp [shown_iff, toString, written]
  | .when cond body otherwise, level, inline => by
    have inner := List.forall_mem_append.mp (List.forall_mem_cons.mp inline).2
    have asked : '\n' ∉ cond.text.toList := (inline _ (mem_walk_self _)).expr cond List.mem_cons_self
    have skips : ∀ line ∈ (if body.isEmpty then [(⟨level + 1, "skip"⟩ : CircuitText.Line)] else []),
        Shown line.content := by
      split
      · exact List.forall_mem_singleton.mpr (by simp [shown_iff])
      · exact List.forall_mem_nil _
    have others : ∀ line ∈ (if otherwise.isEmpty then [] else
        (⟨level, "else :"⟩ : CircuitText.Line) :: linesAll (level + 1) otherwise), Shown line.content := by
      split
      · exact List.forall_mem_nil _
      · exact List.forall_mem_cons.mpr ⟨by simp [shown_iff], linesAll_shown otherwise (level + 1) inner.2⟩
    rw [lines]
    refine List.forall_mem_append.mpr ⟨List.forall_mem_append.mpr ⟨List.forall_mem_cons.mpr ⟨?_,
      linesAll_shown body (level + 1) inner.1⟩, skips⟩, others⟩
    simp [shown_iff, toString, asked]
  | .block body, level, inline => linesAll_shown body level (List.forall_mem_cons.mp inline).2
  | .stop clock en exitCode, level, inline => by
    have own := inline _ (mem_walk_self _)
    have clocked : '\n' ∉ clock.text.toList := own.expr clock List.mem_cons_self
    have enabled : '\n' ∉ en.text.toList := own.expr en (by simp [ownExprs])
    have code : '\n' ∉ exitCode.text.toList := exitCode.text_oneLine
    refine List.forall_mem_singleton.mpr ?_
    simp [shown_iff, toString, clocked, enabled, code]
  | .print clock en format args, level, inline => by
    have own := inline _ (mem_walk_self _)
    obtain ⟨clocked, others⟩ := List.forall_mem_cons.mp own.expr
    obtain ⟨enabled, printed⟩ := List.forall_mem_cons.mp others
    have parts : ∀ part ∈ ([clock.text, en.text, quoted format] ++ args.map Expr.text).map String.toList,
        '\n' ∉ part := by
      refine List.forall_mem_map.mpr (List.forall_mem_append.mpr ⟨?_, List.forall_mem_map.mpr printed⟩)
      simp only [List.forall_mem_cons]
      exact ⟨clocked, enabled, quoted_oneLine format, List.forall_mem_nil _⟩
    have joined : OneLine
        (", ".intercalate ([clock.text, en.text, quoted format] ++ args.map Expr.text)) := by
      unfold OneLine
      rw [String.toList_intercalate]
      exact commaSeparated_oneLine parts
    have front : Shown "printf(" := shown_iff.mpr (by simp)
    exact List.forall_mem_singleton.mpr ((front.append joined).append (by simp [OneLine]))
  | .skip, level, _ => List.forall_mem_singleton.mpr (by simp [shown_iff])

theorem linesAll_shown : ∀ (stmts : List Stmt) (level : Nat), (∀ part ∈ walkAll stmts, part.Inline) →
    ∀ line ∈ linesAll level stmts, Shown line.content
  | [], _, _ => List.forall_mem_nil _
  | stmt :: rest, level, inline => by
    obtain ⟨own, others⟩ := List.forall_mem_append.mp inline
    exact List.forall_mem_append.mpr ⟨lines_shown stmt level own, linesAll_shown rest level others⟩

end

end Stmt

/-- The operations in the expressions of a module. -/
def Module.ops : Module → List String
  | regular module => module.statements.flatMap Stmt.ops
  | external _ => []

/-- The names in a module that are printed as they are, whatever they are. -/
def Module.foreignNames : Module → List String
  | regular _ => []
  | external module => module.defname :: module.params.map Param.name

def Circuit.ops (circuit : Circuit) : List String := circuit.modules.flatMap Module.ops

def Circuit.foreignNames (circuit : Circuit) : List String := circuit.modules.flatMap Module.foreignNames

namespace CircuitText

/-- A line that is blank, or one on which something stands. -/
def Line.Printed (line : Line) : Prop := line = blankLine ∨ Shown line.content

theorem Line.Printed.oneLine {line : Line} (printed : line.Printed) : OneLine line.text := by
  have content : '\n' ∉ line.content.toList := by
    rcases printed with rfl | shown
    · simp [blankLine]
    · exact shown.oneLine
  have indent : '\n' ∉ List.replicate (2 * line.level) ' ' := fun inside =>
    absurd (List.eq_of_mem_replicate inside) (by decide)
  simp only [OneLine, Line.text, String.toList_append, String.toList_ofList, List.mem_append, not_or]
  exact ⟨indent, content⟩

/-- The lines of a text, apart from what breaks them. -/
def textLines (text : String) : List String := (Pieces.split '\n' text.toList).map String.ofList

theorem textLines_oneLine {text : String} (single : OneLine text) : textLines text = [text] := by
  rw [textLines, Pieces.split_of_not_mem single, List.map_singleton, String.ofList_toList]

/-- To join texts by line breaks and take the lines apart again is to take each text apart. -/
theorem textLines_intercalate {parts : List String} (some_ : parts ≠ []) :
    textLines ("\n".intercalate parts) = parts.flatMap textLines := by
  have newLine : "\n".toList = ['\n'] := rfl
  induction parts with
  | nil => exact absurd rfl some_
  | cons part rest ih =>
    cases rest with
    | nil => simp [textLines]
    | cons next rest =>
      have later := ih (List.cons_ne_nil next rest)
      unfold textLines at later ⊢
      rw [String.toList_intercalate, newLine] at later ⊢
      rw [List.map_cons, List.map_cons, List.intercalate_cons_cons, List.append_assoc, List.singleton_append,
        Pieces.split_append_mark, List.map_append, List.flatMap_cons, ← later, List.map_cons]

end CircuitText

open CircuitText

theorem Port.line_shown {port : Port} (identifier : isIdentifier port.name = true) (level : Nat) :
    Shown (port.line level).content := by
  have named : '\n' ∉ port.name.toList := oneLine_of_isIdentifier identifier
  have typed : '\n' ∉ port.type.text.toList := port.type.text_oneLine
  cases direction : port.direction <;>
    simp [shown_iff, Port.line, Direction.name, direction, toString, named, typed]

theorem ParamValue.text_oneLine (value : ParamValue) : OneLine value.text := by
  cases value with
  | string value => exact quoted_oneLine value
  | number value => exact value.text_oneLine

namespace Module

variable {module : Module}

/-- A module that is printed on lines of its own. -/
structure Inline (module : Module) : Prop where
  names : ∀ name ∈ module.names, isIdentifier name = true
  formed : module.Formed fun _ => True
  ops : ∀ op ∈ module.ops, OneLine op
  foreign : ∀ name ∈ module.foreignNames, OneLine name

theorem regular_printed {module : RegularModule} (inline : (regular module).Inline) (level : Nat) :
    ∀ line ∈ module.lines level, line.Printed := by
  obtain ⟨identifier, ports, legible⟩ := regular_legible_iff.mp ⟨inline.names, inline.formed⟩
  have named : '\n' ∉ module.name.toList := oneLine_of_isIdentifier identifier
  have inside : ∀ part ∈ Stmt.walkAll module.body, part.Inline := fun part member =>
    ⟨legible part member, fun op held => inline.ops op (List.mem_flatMap.mpr ⟨part, member, held⟩)⟩
  have head : Shown s!"module {module.name} :" := by simp [shown_iff, toString, named]
  have portLines : ∀ line ∈ module.ports.map (Port.line (level + 1)), line.Printed :=
    List.forall_mem_map.mpr fun port held => .inr (port.line_shown (ports port held).1 (level + 1))
  refine List.forall_mem_append.mpr ⟨List.forall_mem_append.mpr ⟨List.forall_mem_append.mpr
    ⟨List.forall_mem_cons.mpr ⟨.inr head, portLines⟩, ?_⟩, ?_⟩, ?_⟩
  · split
    · exact List.forall_mem_singleton.mpr (.inl rfl)
    · exact List.forall_mem_nil _
  · exact fun line printed => .inr (Stmt.linesAll_shown module.body (level + 1) inside line printed)
  · split
    · exact List.forall_mem_singleton.mpr (.inr (shown_iff.mpr (by simp)))
    · exact List.forall_mem_nil _

theorem external_printed {module : ExternalModule} (inline : (external module).Inline) (level : Nat) :
    ∀ line ∈ module.lines level, line.Printed := by
  obtain ⟨identifier, ports, -, -⟩ := external_legible_iff.mp ⟨inline.names, inline.formed⟩
  obtain ⟨defname, params⟩ := List.forall_mem_cons.mp inline.foreign
  have named : '\n' ∉ module.name.toList := oneLine_of_isIdentifier identifier
  have defined : '\n' ∉ module.defname.toList := defname
  have head : Shown s!"extmodule {module.name} :" := by simp [shown_iff, toString, named]
  have portLines : ∀ line ∈ module.ports.map (Port.line (level + 1)), line.Printed :=
    List.forall_mem_map.mpr fun port held => .inr (port.line_shown (ports port held).1 (level + 1))
  have definition : Shown s!"defname = {module.defname}" := by simp [shown_iff, toString, defined]
  refine List.forall_mem_append.mpr ⟨List.forall_mem_cons.mpr ⟨.inr head, portLines⟩,
    List.forall_mem_cons.mpr ⟨.inr definition, List.forall_mem_map.mpr fun param held => .inr ?_⟩⟩
  have labelled : '\n' ∉ param.name.toList := params _ (List.mem_map_of_mem held)
  have valued : '\n' ∉ param.value.text.toList := param.value.text_oneLine
  simp [shown_iff, toString, labelled, valued]

theorem lines_printed (inline : module.Inline) (level : Nat) : ∀ line ∈ module.lines level, line.Printed := by
  cases module with
  | regular module => exact regular_printed inline level
  | external module => exact external_printed inline level

end Module

namespace Circuit

variable {circuit : Circuit}

theorem bodyLines_printed : ∀ {modules : List Module}, (∀ module ∈ modules, module.Inline) →
    ∀ line ∈ bodyLines modules, line.Printed
  | [], _ => List.forall_mem_nil _
  | [last], inline => Module.lines_printed (List.forall_mem_singleton.mp inline) 1
  | module :: next :: rest, inline => by
    obtain ⟨own, others⟩ := List.forall_mem_cons.mp inline
    exact List.forall_mem_append.mpr
      ⟨Module.lines_printed own 1, List.forall_mem_cons.mpr ⟨.inl rfl, bodyLines_printed others⟩⟩

/-- A circuit is printed on lines of its own if its foreign names and its operations keep to one line. -/
structure Inline (circuit : Circuit) : Prop where
  decoded : circuit.Decoded
  ops : ∀ op ∈ circuit.ops, OneLine op
  foreign : ∀ name ∈ circuit.foreignNames, OneLine name

theorem Inline.modules (inline : circuit.Inline) : ∀ module ∈ circuit.modules, module.Inline :=
  fun module inside =>
  ⟨inline.decoded.identified.modules module inside, inline.decoded.formed module inside,
    fun op held => inline.ops op (List.mem_flatMap.mpr ⟨module, inside, held⟩),
    fun name held => inline.foreign name (List.mem_flatMap.mpr ⟨module, inside, held⟩)⟩

/-- No line of a printed circuit is blank but those that stand between two blocks. -/
theorem Inline.lines_printed (inline : circuit.Inline) : ∀ line ∈ circuit.lines, line.Printed := by
  have named : '\n' ∉ circuit.main.toList := oneLine_of_isIdentifier inline.decoded.identified.main
  refine List.forall_mem_cons.mpr ⟨.inr ?_, bodyLines_printed inline.modules⟩
  simp [shown_iff, toString, named]

/-- The lines of the text are those of the header and then those that are printed. -/
theorem Inline.textLines_text (inline : circuit.Inline) (header : List String) :
    textLines (circuit.text header) = header.flatMap textLines ++ circuit.lines.map Line.text ++ [""] := by
  have single : ∀ line ∈ circuit.lines.map Line.text, textLines line = [line] :=
    List.forall_mem_map.mpr fun line inside => textLines_oneLine (inline.lines_printed line inside).oneLine
  have each : (circuit.lines.map Line.text).flatMap textLines = circuit.lines.map Line.text := by
    rw [List.flatMap_congr single, List.flatMap_singleton']
  have last : textLines "" = [""] := textLines_oneLine (by simp [OneLine])
  rw [text, textLines_intercalate (by simp), List.flatMap_append, List.flatMap_append,
    List.flatMap_singleton, last, each]

end Circuit

end CircuitNames
