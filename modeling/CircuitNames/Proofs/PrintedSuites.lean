import CircuitNames.Proofs.PrintedLines

namespace CircuitNames

open CircuitText

namespace Stmt

mutual

/-- Nothing is printed of a block that holds nothing but blocks of which nothing is printed. -/
def silent : Stmt → Bool
  | block body => silentAll body
  | _ => false

def silentAll : List Stmt → Bool
  | [] => true
  | stmt :: rest => silent stmt && silentAll rest

end

end Stmt

/-- What opens a suite. Both sides of a condition are branches. -/
inductive Heading where
  | module (module : RegularModule)
  | external (module : ExternalModule)
  | memory (decl : MemDecl)
  | branch (body : List Stmt)

/-- There is a body, but nothing is printed of it, nor of anything else in its place. -/
def Heading.Hollow : Heading → Prop
  | .module held => held.ports = [] ∧ held.body ≠ [] ∧ Stmt.silentAll held.body = true
  | .external _ | .memory _ => False
  | .branch body => body ≠ [] ∧ Stmt.silentAll body = true

/-- A line with the heading that it is printed for, if it opens a suite. -/
abbrev MarkedLine := Line × Option Heading

def unmarked (lines : List Line) : List MarkedLine := lines.map (·, none)

/-- Lines of which the first one opens a suite of the others. -/
def headed (heading : Heading) : List Line → List MarkedLine
  | [] => []
  | first :: rest => (first, some heading) :: unmarked rest

theorem map_unmarked (lines : List Line) : (unmarked lines).map Prod.fst = lines := by
  simp [unmarked, Function.comp_def]

theorem map_headed (heading : Heading) (lines : List Line) : (headed heading lines).map Prod.fst = lines := by
  cases lines with
  | nil => rfl
  | cons first rest => rw [headed, List.map_cons, map_unmarked]

namespace Stmt

/-- The other side of a condition under a line of its own, if anything is there. -/
def markedElse (level : Nat) (otherwise : List Stmt) (suite : List MarkedLine) : List MarkedLine :=
  if otherwise.isEmpty then [] else (⟨level, "else :"⟩, some (.branch otherwise)) :: suite

theorem map_markedElse (level : Nat) (otherwise : List Stmt) (suite : List MarkedLine) :
    (markedElse level otherwise suite).map Prod.fst =
      if otherwise.isEmpty then [] else ⟨level, "else :"⟩ :: suite.map Prod.fst := by
  unfold markedElse
  split <;> rfl

mutual

/-- The lines of a statement with the headings that they are printed for. -/
def marked (level : Nat) : Stmt → List MarkedLine
  | mem decl => headed (.memory decl) (decl.lines level)
  | when cond body otherwise =>
    (⟨level, s!"when {cond.text} :"⟩, some (.branch body)) :: markedAll (level + 1) body ++
      unmarked (if body.isEmpty then [⟨level + 1, "skip"⟩] else []) ++
      markedElse level otherwise (markedAll (level + 1) otherwise)
  | block body => markedAll level body
  | stmt => unmarked (lines level stmt)

def markedAll (level : Nat) : List Stmt → List MarkedLine
  | [] => []
  | stmt :: rest => marked level stmt ++ markedAll level rest

end

mutual

theorem map_marked : ∀ (stmt : Stmt) (level : Nat), (marked level stmt).map Prod.fst = lines level stmt
  | .mem decl, level => map_headed (.memory decl) (decl.lines level)
  | .when cond body otherwise, level => by
    rw [marked, lines, List.map_append, List.map_append, List.map_cons, map_unmarked, map_markedElse,
      map_markedAll body (level + 1), map_markedAll otherwise (level + 1)]
  | .block body, level => map_markedAll body level
  | .wire .., _ | .reg .., _ | .node .., _ | .inst .., _ | .connect .., _ | .invalidate _, _ | .stop .., _
  | .print .., _ | .skip, _ => map_unmarked _

theorem map_markedAll :
    ∀ (stmts : List Stmt) (level : Nat), (markedAll level stmts).map Prod.fst = linesAll level stmts
  | [], _ => rfl
  | stmt :: rest, level => by
    rw [markedAll, linesAll, List.map_append, map_marked stmt level, map_markedAll rest level]

end

end Stmt

/-- The next line that is not blank. -/
def next? (after : List Line) : Option Line := after.find? (· ≠ blankLine)

/-- The next line that is not blank is there, one level below a line. -/
def Suite (line : Line) (after : List Line) : Prop := ∃ next ∈ next? after, next.level = line.level + 1

/-- The text of a line begins where its indentation ends. -/
def CircuitText.Line.Flush (line : Line) : Prop := line.content.toList.head? ≠ some ' '

/-- What comes next stands no deeper than a level. -/
def Outside (level : Nat) (after : List Line) : Prop := ∀ next ∈ next? after, next.level ≤ level

/-- Headings are flush, and just those that are not hollow have a suite. -/
def Suited (after : List Line) : List MarkedLine → Prop
  | [] => True
  | (line, mark) :: rest =>
    (∀ heading ∈ mark, line.Flush ∧ (Suite line (rest.map Prod.fst ++ after) ↔ ¬heading.Hollow)) ∧
      Suited after rest

variable {line : Line} {after : List Line} {level : Nat}

theorem next?_cons (positive : 0 < line.level) (after : List Line) : next? (line :: after) = some line := by
  refine List.find?_cons_of_pos (decide_eq_true ?_)
  rintro rfl
  exact absurd positive (by decide)

theorem next?_blank (after : List Line) : next? (blankLine :: after) = next? after :=
  List.find?_cons_of_neg (by simp)

theorem Outside.cons (positive : 0 < line.level) (above : line.level ≤ level) (after : List Line) :
    Outside level (line :: after) := by
  intro next found
  rw [next?_cons positive] at found
  exact Option.some.inj found ▸ above

theorem Outside.mono {deeper : Nat} (outside : Outside level after) (le : level ≤ deeper) :
    Outside deeper after :=
  fun next found => (outside next found).trans le

theorem suite_cons (positive : 0 < line.level) {first : Line} (deeper : first.level = line.level + 1)
    (after : List Line) :
    Suite line (first :: after) := ⟨first, next?_cons (by omega) after, deeper⟩

theorem not_suite (outside : Outside line.level after) : ¬Suite line after := by
  rintro ⟨next, found, deeper⟩
  have := outside next found
  omega

/-- Headings have their suites in a whole when they do in its parts, each with what comes after it. -/
theorem suited_append {front rest : List MarkedLine} :
    Suited after (front ++ rest) ↔ Suited (rest.map Prod.fst ++ after) front ∧ Suited after rest := by
  induction front with
  | nil => simp [Suited]
  | cons first front ih =>
    obtain ⟨line, mark⟩ := first
    rw [List.cons_append, Suited, Suited, ih, List.map_append, List.append_assoc, and_assoc]

theorem suited_unmarked (lines : List Line) : Suited after (unmarked lines) := by
  induction lines with
  | nil => trivial
  | cons line rest ih => exact ⟨fun heading absent => (by cases absent), ih⟩

/-- A heading whose second line stands below the first one has a suite. -/
theorem suited_headed {heading : Heading} (full : ¬heading.Hollow) {first second : Line} (flush : first.Flush)
    (positive : 0 < first.level) (deeper : second.level = first.level + 1) (rest : List Line) :
    Suited after (headed heading (first :: second :: rest)) := by
  refine ⟨fun held same => ?_, suited_unmarked (second :: rest)⟩
  obtain rfl := Option.some.inj same
  rw [map_unmarked]
  exact ⟨flush, iff_of_true (suite_cons positive deeper _) full⟩

namespace Stmt

mutual

theorem lines_silent : ∀ stmt : Stmt, silent stmt = true → lines level stmt = []
  | .block body, quiet => linesAll_silent body quiet
  | .wire .., loud | .reg .., loud | .node .., loud | .inst .., loud | .mem _, loud | .connect .., loud
  | .invalidate _, loud
  | .when .., loud | .stop .., loud | .print .., loud | .skip, loud => absurd loud Bool.false_ne_true

/-- Blocks in which nothing stands print no line. -/
theorem linesAll_silent : ∀ stmts : List Stmt, silentAll stmts = true → linesAll level stmts = []
  | [], _ => rfl
  | stmt :: rest, quiet => by
    obtain ⟨own, others⟩ := Bool.and_eq_true_iff.mp quiet
    rw [linesAll, lines_silent stmt own, linesAll_silent rest others, List.append_nil]

end

mutual

/-- What is printed of a statement begins at its own level. -/
theorem lines_begin : ∀ (stmt : Stmt) (level : Nat), silent stmt = false →
    ∃ content more, lines level stmt = ⟨level, content⟩ :: more
  | .block body, level, loud => linesAll_begin body level loud
  | .wire .., _, _ | .reg .., _, _ | .node .., _, _ | .inst .., _, _ | .mem _, _, _ | .connect .., _, _
  | .invalidate _, _, _ | .when .., _, _ | .stop .., _, _ | .print .., _, _ | .skip, _, _ => ⟨_, _, rfl⟩

theorem linesAll_begin : ∀ (stmts : List Stmt) (level : Nat), silentAll stmts = false →
    ∃ content more, linesAll level stmts = ⟨level, content⟩ :: more
  | stmt :: rest, level, loud => by
    cases own : silent stmt with
    | false =>
      obtain ⟨content, more, begins⟩ := lines_begin stmt level own
      exact ⟨content, more ++ linesAll level rest, by rw [linesAll, begins, List.cons_append]⟩
    | true =>
      have others : silentAll rest = false := by simpa [silentAll, own] using loud
      obtain ⟨content, more, begins⟩ := linesAll_begin rest level others
      exact ⟨content, more, by rw [linesAll, lines_silent stmt own, List.nil_append, begins]⟩

end

/-- Statements one level below a line are its suite, if anything is printed of them. -/
theorem suite_linesAll (positive : 0 < line.level) (outside : Outside line.level after) (body : List Stmt) :
    Suite line (linesAll (line.level + 1) body ++ after) ↔ silentAll body = false := by
  cases quiet : silentAll body with
  | true =>
    rw [linesAll_silent body quiet, List.nil_append]
    exact iff_of_false (not_suite outside) (by simp)
  | false =>
    obtain ⟨content, more, begins⟩ := linesAll_begin body (line.level + 1) quiet
    rw [begins]
    exact iff_of_true (suite_cons positive rfl _) rfl

/-- So a body that is there has a suite unless it is hollow. -/
theorem suite_branch (positive : 0 < line.level) (outside : Outside line.level after) {body : List Stmt}
    (some_ : body ≠ []) :
    Suite line (linesAll (line.level + 1) body ++ after) ↔ ¬(Heading.branch body).Hollow := by
  rw [suite_linesAll positive outside body, Heading.Hollow, and_iff_right some_, Bool.not_eq_true]

/-- A branch is followed by lines that are indented two spaces more, unless its body holds nothing but blocks
in which nothing stands: then no `skip` is printed in its place either. -/
theorem suite_body (positive : 0 < line.level) (outside : Outside line.level after) (body : List Stmt) :
    Suite line (linesAll (line.level + 1) body ++
      ((if body.isEmpty then [⟨line.level + 1, "skip"⟩] else []) ++ after)) ↔
      ¬(Heading.branch body).Hollow := by
  cases body with
  | nil => exact iff_of_true (suite_cons positive rfl after) fun hollow => hollow.1 rfl
  | cons stmt rest => exact suite_branch positive outside (List.cons_ne_nil stmt rest)

theorem outside_linesAll (positive : 0 < level) (outside : Outside level after) (stmts : List Stmt) :
    Outside level (linesAll level stmts ++ after) := by
  cases quiet : silentAll stmts with
  | true => rwa [linesAll_silent stmts quiet]
  | false =>
    obtain ⟨content, more, begins⟩ := linesAll_begin stmts level quiet
    rw [begins]
    exact Outside.cons positive le_rfl _

mutual

/-- Each heading in a statement has its suite, if the lines that come after the statement are no deeper than
the statement. -/
theorem suited_marked : ∀ (stmt : Stmt) {level : Nat} {after : List Line}, 0 < level → Outside level after →
    Suited after (marked level stmt)
  | .mem decl, level, after, positive, _ => suited_headed id (by simp [Line.Flush, toString]) positive rfl _
  | .when cond body otherwise, level, after, positive, outside => by
    have below : Outside level
        ((markedElse level otherwise (markedAll (level + 1) otherwise)).map Prod.fst ++ after) := by
      rw [map_markedElse]
      split
      · exact outside
      · exact Outside.cons positive le_rfl _
    rw [marked, suited_append, suited_append, map_unmarked]
    refine ⟨⟨⟨fun heading same => ?_, suited_markedAll body (Nat.succ_pos level) ?_⟩, suited_unmarked _⟩, ?_⟩
    · obtain rfl := Option.some.inj same
      rw [map_markedAll]
      exact ⟨by simp [Line.Flush, toString], suite_body positive below body⟩
    · split
      · exact Outside.cons (Nat.succ_pos level) le_rfl _
      · exact below.mono (Nat.le_succ level)
    · unfold markedElse
      split
      · trivial
      · rename_i some_
        refine ⟨fun heading same => ?_,
          suited_markedAll otherwise (Nat.succ_pos level) (outside.mono (Nat.le_succ level))⟩
        obtain rfl := Option.some.inj same
        rw [map_markedAll]
        exact ⟨by simp [Line.Flush], suite_branch positive outside (by simpa using some_)⟩
  | .block body, level, after, positive, outside => suited_markedAll body positive outside
  | .wire .., _, _, _, _ | .reg .., _, _, _, _ | .node .., _, _, _, _ | .inst .., _, _, _, _
  | .connect .., _, _, _, _
  | .invalidate _, _, _, _, _ | .stop .., _, _, _, _ | .print .., _, _, _, _ | .skip, _, _, _, _ =>
    suited_unmarked _

theorem suited_markedAll : ∀ (stmts : List Stmt) {level : Nat} {after : List Line}, 0 < level →
    Outside level after →
    Suited after (markedAll level stmts)
  | [], _, _, _, _ => trivial
  | stmt :: rest, level, after, positive, outside => by
    rw [markedAll, suited_append, map_markedAll]
    exact ⟨suited_marked stmt positive (outside_linesAll positive outside rest),
      suited_markedAll rest positive outside⟩

end

end Stmt

namespace Module

/-- The lines of a module with the headings that they are printed for. -/
def marked (level : Nat) : Module → List MarkedLine
  | .external module => headed (.external module) (module.lines level)
  | .regular module =>
    (⟨level, s!"module {module.name} :"⟩, some (.module module)) ::
      unmarked (module.ports.map (Port.line (level + 1))) ++
      unmarked (if !module.ports.isEmpty && !module.body.isEmpty then [blankLine] else []) ++
      Stmt.markedAll (level + 1) module.body ++
      unmarked (if module.ports.isEmpty && module.body.isEmpty then [⟨level + 1, "skip"⟩] else [])

theorem map_marked (module : Module) (level : Nat) :
    (module.marked level).map Prod.fst = module.lines level := by
  cases module with
  | external module => exact map_headed (.external module) (module.lines level)
  | regular module =>
    rw [marked]
    simp only [List.map_append, List.map_cons, map_unmarked, Stmt.map_markedAll]
    rfl

theorem lines_begin (module : Module) (level : Nat) :
    ∃ content more, module.lines level = ⟨level, content⟩ :: more := by
  cases module <;> exact ⟨_, _, rfl⟩

theorem suited_regular (module : RegularModule) (positive : 0 < level) (outside : Outside level after) :
    Suited after ((regular module).marked level) := by
  obtain ⟨name, ports, body⟩ := module
  rw [marked, suited_append, suited_append, suited_append, map_unmarked, map_unmarked, Stmt.map_markedAll]
  refine ⟨⟨⟨⟨fun heading same => ?_, suited_unmarked _⟩, suited_unmarked _⟩,
    Stmt.suited_markedAll body (Nat.succ_pos level) ?_⟩, suited_unmarked _⟩
  · obtain rfl := Option.some.inj same
    rw [map_unmarked]
    refine ⟨by simp [Line.Flush, toString], ?_⟩
    cases ports with
    | cons port ports =>
      exact iff_of_true (suite_cons positive rfl _) fun hollow =>
      absurd hollow.1 (List.cons_ne_nil port ports)
    | nil =>
      -- Without ports the body comes first, and it is followed by nothing of the module.
      cases body with
      | nil => exact iff_of_true (suite_cons positive rfl _) fun hollow => hollow.2.1 rfl
      | cons stmt rest =>
        refine (Stmt.suite_branch ?_ ?_ (List.cons_ne_nil stmt rest)).trans
          (not_congr (and_iff_right rfl).symm)
        · exact positive
        · exact outside
  · split
    · exact Outside.cons (Nat.succ_pos level) le_rfl _
    · exact outside.mono (Nat.le_succ level)

theorem suited_external (module : ExternalModule) (positive : 0 < level) :
    Suited after ((external module).marked level) := by
  obtain ⟨name, ports, defname, params⟩ := module
  cases ports with
  | nil => exact suited_headed id (by simp [Line.Flush, toString]) positive rfl _
  | cons port ports => exact suited_headed id (by simp [Line.Flush, toString]) positive rfl _

theorem suited_marked (module : Module) (positive : 0 < level) (outside : Outside level after) :
    Suited after (module.marked level) := by
  cases module with
  | regular module => exact suited_regular module positive outside
  | external module => exact suited_external module positive

end Module

namespace Circuit

/-- The lines below the first one, with the headings that they are printed for. -/
def markedModules : List Module → List MarkedLine
  | [] => []
  | [last] => last.marked 1
  | module :: rest => module.marked 1 ++ (blankLine, none) :: markedModules rest

/-- The lines of a circuit, with each line that opens a module, a memory or a branch marked as a heading. -/
def marked (circuit : Circuit) : List MarkedLine :=
  (⟨0, s!"circuit {circuit.main} :"⟩, none) :: markedModules circuit.modules

theorem map_markedModules : ∀ modules : List Module, (markedModules modules).map Prod.fst = bodyLines modules
  | [] => rfl
  | [last] => last.map_marked 1
  | module :: next :: rest => by
    rw [markedModules, bodyLines, List.map_append, List.map_cons, module.map_marked,
      map_markedModules (next :: rest)]
    · simp
    · simp

theorem map_marked (circuit : Circuit) : circuit.marked.map Prod.fst = circuit.lines := by
  rw [marked, List.map_cons, map_markedModules, lines]

theorem outside_bodyLines (modules : List Module) : Outside 1 (bodyLines modules) := by
  match modules with
  | [] => exact fun _ found => by cases found
  | [last] =>
    obtain ⟨content, more, begins⟩ := last.lines_begin 1
    rw [bodyLines, begins]
    exact Outside.cons Nat.one_pos le_rfl more
  | module :: next :: rest =>
    obtain ⟨content, more, begins⟩ := module.lines_begin 1
    rw [bodyLines, begins]
    · exact Outside.cons Nat.one_pos le_rfl _
    · simp

theorem suited_markedModules : ∀ modules : List Module, Suited [] (markedModules modules)
  | [] => trivial
  | [last] => last.suited_marked Nat.one_pos fun _ found => by cases found
  | module :: next :: rest => by
    rw [markedModules, suited_append]
    · refine ⟨module.suited_marked Nat.one_pos ?_, fun heading absent => (by cases absent),
        suited_markedModules (next :: rest)⟩
      rw [List.map_cons, map_markedModules, List.append_nil, Outside, next?_blank]
      exact outside_bodyLines (next :: rest)
    · simp

/-- Wherever a heading is printed, it is flush and has a suite unless it is hollow. -/
theorem suite_iff (circuit : Circuit) {before rest : List MarkedLine} {line : Line} {heading : Heading}
    (printed : circuit.marked = before ++ (line, some heading) :: rest) :
    line.Flush ∧ (Suite line (rest.map Prod.fst) ↔ ¬heading.Hollow) := by
  have suited : Suited [] circuit.marked :=
    ⟨fun heading absent => (by cases absent), suited_markedModules circuit.modules⟩
  rw [printed, suited_append] at suited
  simpa using suited.2.1 heading rfl

end Circuit

/-- The headings of a statement itself. -/
def Stmt.headings : Stmt → List Heading
  | mem decl => [.memory decl]
  | when _ body otherwise => .branch body :: if otherwise.isEmpty then [] else [.branch otherwise]
  | _ => []

/-- The headings of a module: its own and those of the statements in it. -/
def Module.headings : Module → List Heading
  | .regular module => .module module :: module.statements.flatMap Stmt.headings
  | .external module => [.external module]

/-- The headings that lines are printed for. -/
def marks (printed : List MarkedLine) : List Heading := printed.filterMap Prod.snd

@[simp] theorem marks_cons (line : Line) (mark : Option Heading) (rest : List MarkedLine) :
    marks ((line, mark) :: rest) = mark.toList ++ marks rest := by cases mark <;> rfl

@[simp] theorem marks_append (front rest : List MarkedLine) :
    marks (front ++ rest) = marks front ++ marks rest :=
  List.filterMap_append

@[simp] theorem marks_unmarked (lines : List Line) : marks (unmarked lines) = [] := by
  simp [marks, unmarked, List.filterMap_map]

theorem marks_headed (heading : Heading) (first : Line) (rest : List Line) :
    marks (headed heading (first :: rest)) = [heading] := by
  simp [headed]

namespace Stmt

mutual

/-- Every heading is printed once. -/
theorem marks_perm :
    ∀ (stmt : Stmt) (level : Nat), (marks (marked level stmt)).Perm (stmt.walk.flatMap headings)
  | .mem decl, level => .of_eq (marks_headed (.memory decl) _ _)
  | .when cond body otherwise, level => by
    have inBody := marksAll_perm body (level + 1)
    have inElse : (marks (markedElse level otherwise (markedAll (level + 1) otherwise))).Perm
        ((if otherwise.isEmpty then [] else [.branch otherwise]) ++
          (walkAll otherwise).flatMap headings) := by
      cases otherwise with
      | nil => exact .nil
      | cons stmt rest => exact (marksAll_perm (stmt :: rest) (level + 1)).cons _
    rw [marked, walk, List.flatMap_cons, List.flatMap_append, headings]
    simp only [marks_append, marks_cons, marks_unmarked, Option.toList_some, List.append_nil,
      List.cons_append, List.nil_append]
    exact ((inBody.append inElse).trans (List.perm_append_comm_assoc _ _ _)).cons _
  | .block body, level => marksAll_perm body level
  | .wire .., _ | .reg .., _ | .node .., _ | .inst .., _ | .connect .., _ | .invalidate _, _ | .stop .., _
  | .print .., _ | .skip, _ => .of_eq (marks_unmarked _)

/-- The headings among the lines are those of the statements, each as often as it occurs. -/
theorem marksAll_perm : ∀ (stmts : List Stmt) (level : Nat),
    (marks (markedAll level stmts)).Perm ((walkAll stmts).flatMap headings)
  | [], _ => .nil
  | stmt :: rest, level => by
    rw [markedAll, walkAll, marks_append, List.flatMap_append]
    exact (marks_perm stmt level).append (marksAll_perm rest level)

end

end Stmt

theorem Module.marks_perm (module : Module) (level : Nat) :
    (marks (module.marked level)).Perm module.headings := by
  cases module with
  | external module => exact .of_eq (marks_headed (.external module) _ _)
  | regular module =>
    rw [marked, headings]
    simp only [marks_append, marks_cons, marks_unmarked, Option.toList_some, List.append_nil,
      List.cons_append, List.nil_append]
    exact (Stmt.marksAll_perm module.body (level + 1)).cons _

theorem Circuit.marks_perm (circuit : Circuit) :
    (marks circuit.marked).Perm (circuit.modules.flatMap Module.headings) := by
  have each (modules : List Module) :
      (marks (markedModules modules)).Perm (modules.flatMap Module.headings) := by
    induction modules with
    | nil => exact .nil
    | cons module rest ih =>
      cases rest with
      | nil => simpa [markedModules] using module.marks_perm 1
      | cons next rest =>
        rw [markedModules, marks_append, marks_cons, List.flatMap_cons]
        · exact (module.marks_perm 1).append ih
        · simp
  rw [marked, marks_cons]
  exact each circuit.modules

namespace CircuitText

/-- The spaces that a line of a text begins with. -/
def indentation (line : String) : Nat := (line.toList.takeWhile (· == ' ')).length

def isBlank (line : String) : Bool := line.toList.all (· == ' ')

/-- The next line that is not blank is there, and it is indented two spaces more. -/
def Indents (line : String) (after : List String) : Prop :=
  ∃ next, after.find? (!isBlank ·) = some next ∧ indentation next = indentation line + 2

theorem Line.Flush.indentation {line : Line} (flush : line.Flush) :
    indentation line.text = 2 * line.level := by
  have spaces : ∀ c ∈ List.replicate (2 * line.level) ' ', (c == ' ') = true := fun c inside =>
    beq_iff_eq.mpr (List.eq_of_mem_replicate inside)
  have stop : ∀ c ∈ line.content.toList.head?, (c == ' ') = false := by
    rintro c isFirst
    rw [beq_eq_false_iff_ne]
    rintro rfl
    exact flush isFirst
  rw [CircuitText.indentation, Line.text, String.toList_append, String.toList_ofList,
    takeWhile_front spaces stop, List.length_replicate]

theorem Line.Printed.isBlank_iff {line : Line} (printed : line.Printed) :
    isBlank line.text = true ↔ line = blankLine := by
  rcases printed with rfl | ⟨⟨c, inside, visible⟩, -⟩
  · exact iff_of_true rfl rfl
  · refine iff_of_false (fun blank => ?_) ?_
    · have within : c ∈ line.text.toList := by
        rw [Line.text, String.toList_append]
        exact List.mem_append_right _ inside
      exact visible (beq_iff_eq.mp (List.all_eq_true.mp blank c within))
    · rintro rfl
      cases inside

theorem find?_text {lines : List Line} (printed : ∀ line ∈ lines, line.Printed) :
    (lines.map Line.text ++ [""]).find? (!isBlank ·) = (next? lines).map Line.text := by
  induction lines with
  | nil => rfl
  | cons line rest ih =>
    obtain ⟨own, others⟩ := List.forall_mem_cons.mp printed
    rw [List.map_cons, List.cons_append]
    by_cases blank : line = blankLine
    · rw [List.find?_cons_of_neg (by simp [own.isBlank_iff.mpr blank]), ih others, blank, next?_blank]
    · have visible : isBlank line.text = false := Bool.eq_false_iff.mpr fun found =>
        blank (own.isBlank_iff.mp found)
      rw [List.find?_cons_of_pos (by simp [visible]), next?, List.find?_cons_of_pos (by simpa using blank),
        Option.map_some]

/-- A line that is flush is indented two spaces for each level, so a suite is indented two spaces more. -/
theorem indents_iff {line : Line} {rest : List Line} (flush : line.Flush)
    (printed : ∀ line ∈ rest, line.Printed) (below : ∀ next ∈ next? rest, next.Flush) :
    Indents line.text (rest.map Line.text ++ [""]) ↔ Suite line rest := by
  rw [Indents, find?_text printed, flush.indentation]
  constructor
  · rintro ⟨text, found, deeper⟩
    obtain ⟨next, first, rfl⟩ := Option.map_eq_some_iff.mp found
    have level := (below next first).indentation
    exact ⟨next, first, by omega⟩
  · rintro ⟨next, first, deeper⟩
    have level := (below next first).indentation
    exact ⟨next.text, by rw [Option.mem_def.mp first]; rfl, by omega⟩

end CircuitText

/-- Every heading of a circuit is printed once, and the next line of the text that is not blank is indented
two spaces more, unless the heading is hollow: then it is not. This takes the text of that line to begin where
its indentation ends: it may begin with an operation, and an operation with a space. -/
theorem Circuit.text_indents_suites {circuit : Circuit} (inline : circuit.Inline) (header : List String) :
    textLines (circuit.text header) = header.flatMap textLines ++ circuit.marked.map (·.1.text) ++ [""] ∧
      (marks circuit.marked).Perm (circuit.modules.flatMap Module.headings) ∧
      ∀ before line heading rest, circuit.marked = before ++ (line, some heading) :: rest →
        (∀ next ∈ next? (rest.map Prod.fst), next.Flush) →
          (Indents line.text (rest.map (·.1.text) ++ [""]) ↔ ¬heading.Hollow) := by
  have texts (printed : List MarkedLine) : printed.map (·.1.text) = (printed.map Prod.fst).map Line.text := by
    rw [List.map_map]
    rfl
  refine ⟨?_, circuit.marks_perm, fun before line heading rest printed below => ?_⟩
  · rw [inline.textLines_text, texts, circuit.map_marked]
  · obtain ⟨flush, suite⟩ := circuit.suite_iff printed
    have lines : circuit.lines = before.map Prod.fst ++ line :: rest.map Prod.fst := by
      rw [← circuit.map_marked, printed, List.map_append, List.map_cons]
    have others := (List.forall_mem_cons.mp (List.forall_mem_append.mp (lines ▸ inline.lines_printed)).2).2
    rw [texts, indents_iff flush others below, suite]

/-- Here the line below the heading is indented three spaces more, for the operation begins with one of
them. -/
example : Circuit.text ⟨"M", [.regular ⟨"M", [], [.connect (.prim " p" [] []) (.ref "c")]⟩]⟩ [] =
    "circuit M :\n  module M :\n     p() <= c\n" := by decide

namespace Circuit

namespace Sample

theorem inline : circuit.Inline where
  decoded := decoded
  ops := by decide
  foreign := by decide

end Sample

theorem text_indents_suites_sample :
    Sample.circuit.Inline ∧
      Sample.circuit.marked = [(⟨0, "circuit Top :"⟩, none)] ++
        (⟨1, "module Top :"⟩, some (.module Sample.top)) :: (⟨2, "input En : UInt"⟩, none) ::
          Sample.circuit.marked.drop 3 ∧
      Indents (Line.text ⟨1, "module Top :"⟩)
        (((⟨2, "input En : UInt"⟩, none) :: Sample.circuit.marked.drop 3).map (·.1.text) ++ [""]) := by
  have printed : Sample.circuit.marked = [(⟨0, "circuit Top :"⟩, none)] ++
      (⟨1, "module Top :"⟩, some (.module Sample.top)) :: (⟨2, "input En : UInt"⟩, none) ::
        Sample.circuit.marked.drop 3 := rfl
  refine ⟨Sample.inline, printed, ((text_indents_suites Sample.inline []).2.2 _ _ _ _ printed ?_).mpr ?_⟩
  · intro next found
    rw [List.map_cons, next?_cons (by decide)] at found
    obtain rfl := Option.some.inj found
    simp [Line.Flush]
  · exact fun hollow => List.cons_ne_nil _ _ hollow.1

/-- The body of the module is not empty, so no `skip` stands for it, and the block that it holds prints
nothing. -/
def hollow : Circuit := ⟨"M", [.regular ⟨"M", [], [.block []]⟩]⟩

theorem text_hollow_suite :
    hollow.Decoded ∧ hollow.ops = [] ∧ hollow.foreignNames = [] ∧
      hollow.marked =
        [(⟨0, "circuit M :"⟩, none), (⟨1, "module M :"⟩, some (.module ⟨"M", [], [.block []]⟩))] ∧
      textLines (hollow.text []) = ["circuit M :", "  module M :", ""] ∧ ¬Indents "  module M :" [""] := by
  refine ⟨⟨?_, ?_⟩, rfl, rfl, rfl, by decide, ?_⟩
  · exact .object [("main", .string "M"),
      ("modules", .array [.object [("kind", .string "module"), ("name", .string "M"),
      ("ports", .array []), ("body", .array [.object [("kind", .string "block"), ("stmts", .array [])]])]])]
  · cbv
  · rintro ⟨next, found, -⟩
    cases found

end Circuit

end CircuitNames
