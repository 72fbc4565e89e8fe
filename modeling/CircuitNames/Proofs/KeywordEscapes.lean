import CircuitNames.Proofs.OrderIndependence
import CircuitNames.Proofs.RepeatedPasses
import Mathlib.Data.List.DropRight

namespace CircuitNames

/-- A name with underscores after it. -/
def underscored (name : String) (count : Nat) : String := name ++ String.ofList (List.replicate count '_')

theorem Scope.extended_eq_underscored (base : String) (index : Nat) :
    extended base "_" index = underscored base (index + 1) := by
  have joined (count : Nat) : String.join (List.replicate count "_") =
      String.ofList (List.replicate count '_') := by
    refine String.toList_injective ?_
    rw [String.toList_join, String.toList_ofList]
    induction count with
    | zero => rfl
    | succ count ih => rw [List.replicate_succ, List.flatMap_cons, ih]; rfl
  rw [extended, underscored, joined]

/-- Without the underscores at its end, an underscored name is the name without them. -/
theorem rdropWhile_underscored (name : String) (count : Nat) :
    (underscored name count).toList.rdropWhile (· == '_') = name.toList.rdropWhile (· == '_') := by
  rw [underscored, String.toList_append, String.toList_ofList]
  induction count with
  | zero => rw [List.replicate_zero, List.append_nil]
  | succ count ih => rw [List.replicate_succ', ← List.append_assoc, List.rdropWhile_concat_pos _ _ _ rfl, ih]

/-- Words that do not end in underscores. -/
def Unmarked (words : List String) : Prop := ∀ word ∈ words, word.toList.rdropWhile (· == '_') = word.toList

instance (words : List String) : Decidable (Unmarked words) := inferInstanceAs (Decidable (∀ word ∈ words, _))

theorem unmarked_verilogKeywords : Unmarked verilogKeywords := by decide +kernel

namespace Unmarked

variable {words : List String} (unmarked : Unmarked words)
include unmarked

/-- The names that the rule hands out in a scope never get in each other's way, as no keyword ends in an
underscore; so each can be read off the names that the scope had from the first. -/
theorem underscored_not_mem (name : String) (count : Nat) : underscored name (count + 1) ∉ words := by
  intro inside
  have shorter := (List.rdropWhile_prefix (· == '_') (l := name.toList)).length_le
  rw [← rdropWhile_underscored name (count + 1), unmarked _ inside] at shorter
  simp only [underscored, String.toList_append, String.toList_ofList, List.length_append,
    List.length_replicate] at shorter
  omega

/-- Different words stay different, however many underscores come after them. -/
theorem underscored_inj {first second : String} (isWord : first ∈ words) (alsoWord : second ∈ words)
    {count other : Nat} (same : underscored first count = underscored second other) : first = second := by
  refine String.toList_injective ?_
  rw [← unmarked _ isWord, ← unmarked _ alsoWord, ← rdropWhile_underscored first count, same,
    rdropWhile_underscored]

end Unmarked

/-- A name with as few underscores after it as it takes, but at least one, to be none of some names. -/
def Escapes (names : List String) (name escaped : String) : Prop :=
  ∃ count, 0 < count ∧ escaped = underscored name count ∧ escaped ∉ names ∧
    ∀ fewer, 0 < fewer → fewer < count → underscored name fewer ∈ names

/-- It only counts which names there are. -/
theorem Escapes.unique {names others : List String} {name first second : String}
    (escapes : Escapes names name first) (alsoEscapes : Escapes others name second)
    (same : ∀ other, other ∈ names ↔ other ∈ others) : first = second := by
  obtain ⟨count, positive, rfl, free, least⟩ := escapes
  obtain ⟨other, otherPositive, rfl, otherFree, otherLeast⟩ := alsoEscapes
  rcases Nat.lt_trichotomy count other with fewer | equal | more
  · exact absurd ((same _).mpr (otherLeast count positive fewer)) free
  · rw [equal]
  · exact absurd ((same _).mp (least other otherPositive more)) otherFree

/-- What becomes of a name in a scope that had some names at first: a word that is to be avoided is escaped,
unless its target is skipped, and any other name stays. -/
def SkipSet.Settles (skips : SkipSet) (words names : List String) (target : Target) (given : String) : Prop :=
  if target.terminalName ∈ words ∧ skips.contains target = false then Escapes names target.terminalName given
  else given = target.terminalName

/-- In the scope a name is taken with underscores after it just when it was so among the first names. -/
def Scope.Clear (names : List String) (scope : Scope) (name : String) : Prop :=
  ∀ count, underscored name (count + 1) ∈ scope.names ↔ underscored name (count + 1) ∈ names

namespace Plan

section Avoiding
variable {words : List String} (unmarked : Unmarked words) (skips : SkipSet)
  {names : List String} {scope : Scope}
include unmarked

/-- A name is settled as long as no escape has taken what it would get. -/
theorem pick_settled {target : Target}
    (clear : target.terminalName ∈ words → scope.Clear names target.terminalName) :
    skips.Settles words names target (Plan.pick ⟨.avoidKeywords words, skips⟩ target scope).1 := by
  unfold SkipSet.Settles
  split
  next both =>
    obtain ⟨isWord, unskipped⟩ := both
    have ruled : (Rule.avoidKeywords words target.terminalName scope).1 =
        some (scope.allocate target.terminalName words "_").1 := by
      simp [Rule.avoidKeywords, isWord]
    rw [pick_of_some unskipped ruled]
    let candidate := Scope.extended target.terminalName "_"
    let index := Scope.firstFree candidate (scope.names ++ words) 0
    have spelled (count : Nat) : candidate count = underscored target.terminalName (count + 1) :=
      Scope.extended_eq_underscored _ _
    have free : candidate index ∉ scope.names ++ words := scope.allocate_not_mem _ words (by decide)
    have passed : ∀ fewer, fewer < index → candidate fewer ∈ scope.names := by
      intro fewer below
      refine (List.mem_append.mp (Scope.mem_of_lt_firstFree (Nat.zero_le _) below)).resolve_right
        fun isWord => ?_
      rw [spelled] at isWord
      exact unmarked.underscored_not_mem _ _ isWord
    simp only [spelled] at free passed
    refine ⟨index + 1, index.succ_pos, spelled index, ?_, fun fewer positive below => ?_⟩
    · intro inside
      refine free (List.mem_append_left _ ((clear isWord index).mpr ?_))
      rwa [← Scope.extended_eq_underscored]
    · obtain ⟨fewer, rfl⟩ := Nat.exists_eq_add_one.mpr positive
      exact (clear isWord fewer).mp (passed fewer (Nat.lt_of_succ_lt_succ below))
  next kept =>
    cases skipped : skips.contains target with
    | true => rw [pick, if_pos skipped]
    | false =>
      have noWord : target.terminalName ∉ words := fun isWord => kept ⟨isWord, skipped⟩
      exact pick_of_none skipped (Rule.avoidKeywords_keeps_iff.mpr noWord)

/-- What a name gets leaves the way clear for every other word. -/
theorem pick_clear {target : Target}
    (clear : target.terminalName ∈ words → scope.Clear names target.terminalName)
    (own : target.terminalName ∈ names) {other : String} (isWord : other ∈ words)
    (apart : other ≠ target.terminalName) (otherClear : scope.Clear names other) :
    (Plan.pick ⟨.avoidKeywords words, skips⟩ target scope).2.Clear names other := by
  intro count
  constructor
  · intro inside
    rcases mem_pick (Rule.steady_avoidKeywords words) inside with before | given
    · exact (otherClear count).mp before
    · have settled := pick_settled unmarked skips clear
      unfold SkipSet.Settles at settled
      rw [← given] at settled
      split at settled
      next both =>
        obtain ⟨marks, -, same, -⟩ := settled
        exact absurd (unmarked.underscored_inj isWord both.1 same) apart
      next => exact settled ▸ own
  · intro inside
    exact pick_keeps (Rule.fair_avoidKeywords words) ((otherClear count).mpr inside)

/-- Names that are given one after the other in a scope are each what they would be if they came first. -/
theorem pickAll_settled {targets : List Target} (distinct : (targets.map Target.terminalName).Nodup)
    (own : ∀ target ∈ targets, target.terminalName ∈ names)
    (clear : ∀ target ∈ targets, target.terminalName ∈ words → scope.Clear names target.terminalName) :
    List.Forall₂ (skips.Settles words names) targets
      (Plan.pickAll ⟨.avoidKeywords words, skips⟩ targets scope).1 := by
  induction targets generalizing scope with
  | nil => exact .nil
  | cons target rest ih =>
    obtain ⟨apart, distinctRest⟩ := List.nodup_cons.mp distinct
    obtain ⟨ownFirst, ownRest⟩ := List.forall_mem_cons.mp own
    obtain ⟨clearFirst, clearRest⟩ := List.forall_mem_cons.mp clear
    refine .cons (pick_settled unmarked skips clearFirst)
      (ih distinctRest ownRest fun other inside isWord => ?_)
    have differs : other.terminalName ≠ target.terminalName :=
      fun same => apart (same ▸ List.mem_map_of_mem inside)
    exact pick_clear unmarked skips clearFirst ownFirst isWord differs (clearRest other inside isWord)

/-- The same in a scope that has just the names of what is declared there. -/
theorem settled_of_pickAll {α : Type} {items : List α} (toTarget : α → Target) {given : Target → String}
    (distinct : ((items.map toTarget).map Target.terminalName).Nodup)
    (own : (items.map toTarget).map Target.terminalName ⊆ names)
    (picked : items.map (fun item => given (toTarget item)) =
      (Plan.pickAll ⟨.avoidKeywords words, skips⟩ (items.map toTarget) (.ofNames names)).1) :
    ∀ item ∈ items, skips.Settles words names (toTarget item) (given (toTarget item)) := by
  have each : List.Forall₂ (skips.Settles words names) (items.map toTarget)
      (Plan.pickAll ⟨.avoidKeywords words, skips⟩ (items.map toTarget) (.ofNames names)).1 :=
    pickAll_settled unmarked skips distinct (fun target inside => own (List.mem_map_of_mem inside))
      fun _ _ _ _ => Scope.mem_ofNames
  rw [← picked, List.forall₂_map_left_iff, List.forall₂_map_right_iff] at each
  exact List.forall₂_same.mp each

end Avoiding

end Plan

/-- The names that the scope of a place has from the first: those of the modules for the circuit and the
modules, those of the ports and declarations of its module for each of these, those of the ports of its memory
for a port of one. -/
def Circuit.namesBeside (circuit : Circuit) : Place → List String
  | .circuit | .module _ => circuit.modules.map Module.name
  | .declaration home _ =>
    match circuit.modules[home]? with
    | some (.regular module) => module.declaredNames
    | _ => []
  | .memoryPort home spot _ _ =>
    match circuit.modules[home]?.bind (·.declarationAt? spot) with
    | some (.mem decl) => decl.portNames
    | _ => []

/-- Everything that is declared gets its name by what its scope had from the first. -/
theorem Plan.naming_settled {words : List String} (unmarked : Unmarked words) (skips : SkipSet)
    {circuit : Circuit} {order : List Module} (ready : circuit.Ready order)
    (all : order.Perm circuit.modules) :
    ∀ entity ∈ circuit.entities, skips.Settles words (circuit.namesBeside entity.place) entity.target
      (Plan.naming ⟨.avoidKeywords words, skips⟩ circuit order entity.target) := by
  let plan : Plan := ⟨.avoidKeywords words, skips⟩
  have placed {home : Nat} {module : Module} (atHome : circuit.modules[home]? = some module) :
      module ∈ order :=
    all.mem_iff.mpr (List.mem_of_getElem? atHome)
  intro entity inside
  -- The circuit has a scope of its own; in the other cases a scope names its targets one after another.
  cases Circuit.mem_entities.mp inside with
  | circuit =>
    have given : (plan.rename .circuit (.circuit circuit.main) (.start circuit)).1 =
        plan.naming circuit order (.circuit circuit.main) := (plan.naming_gives ready).1
    rw [← given, rename_name]
    exact pick_settled unmarked skips fun _ _ => Scope.mem_ofNames
  | @module home module atHome =>
    have terminal : (order.map fun module => Target.module (circuit.home module)).map Target.terminalName =
        order.map Module.name := by simp [Target.terminalName, Function.comp_def]
    refine settled_of_pickAll unmarked skips (fun module => .module (circuit.home module))
      (terminal ▸ ready.ordered.nodup) ?_ (plan.naming_modules ready) module (placed atHome)
    rw [terminal]
    exact (all.map Module.name).subset
  | @declaration home module spot declaration atHome atSpot =>
    have terminal := module.terminalNames_declarations (circuit.home (.regular module))
    have distinct := (ready.distinct module (List.mem_of_getElem? atHome)).declared
    have beside : circuit.namesBeside (.declaration home spot) = module.declaredNames := by
      simp [Circuit.namesBeside, atHome]
    rw [beside]
    exact settled_of_pickAll unmarked skips _ (terminal ▸ distinct) (fun _ inside => terminal ▸ inside)
      (plan.naming_declarations ready (placed atHome)) declaration (Module.mem_of_declarationAt? atSpot)
  | @memoryPort home module spot decl role index port atHome atSpot atPort =>
    have terminal := decl.terminalNames_ports ((circuit.home (.regular module)).reference decl.name)
    have declares := RegularModule.mem_mem_declarations.mp (Module.mem_of_declarationAt? atSpot)
    have distinct := (ready.distinct module (List.mem_of_getElem? atHome)).memories decl declares
    have beside : circuit.namesBeside (.memoryPort home spot role index) = decl.portNames := by
      simp [Circuit.namesBeside, atHome, atSpot]
    rw [beside]
    exact settled_of_pickAll unmarked skips _ (terminal.symm ▸ distinct) (fun _ inside => terminal ▸ inside)
      (plan.naming_memoryPorts ready (placed atHome) declares) port (MemDecl.mem_portNames_of_portsIn atPort)

/-- A run of the rule against the keywords of Verilog that does not skip the circuit, in some order that has
each module once and after those it instantiates. -/
structure KeywordRun (circuit out : Circuit) (skips : SkipSet) : Prop where
  decoded : circuit.Decoded
  distinct : circuit.Distinct
  unskipped : skips.contains (.circuit circuit.main) = false
  ran : ∃ (name : String) (orderOf : Circuit → Except Fault (List Module)) (order : List Module)
    (ledger result : Ledger), orderOf circuit = .ok order ∧ circuit.ListedBy order ∧
      Pass.run ⟨name, .avoidKeywords verilogKeywords, orderOf⟩ circuit ledger skips = .ok (out, result)

theorem KeywordRun.settled {circuit out : Circuit} {skips : SkipSet} (run : KeywordRun circuit out skips) :
    ∀ entity ∈ circuit.entities, ∃ given, out.nameAt? entity.place = some given ∧
      skips.Settles verilogKeywords (circuit.namesBeside entity.place) entity.target given := by
  obtain ⟨name, orderOf, order, ledger, result, asked, listed, ran⟩ := run.ran
  obtain ⟨all, ordered⟩ := (Circuit.listedBy_iff run.distinct).mp listed
  obtain ⟨renames, changed, -⟩ := (Pass.run_eq_ok run.unskipped).mp ran
  have ready : circuit.Ready order := ⟨run.decoded.identified, run.distinct.inside, ordered⟩
  have renamed := Plan.renameCircuit_renaming _ ready all asked changed
  intro entity inside
  exact ⟨_, renamed.nameAt?_of_mem_entities inside,
    Plan.naming_settled unmarked_verilogKeywords skips ready all entity inside⟩

/-- Two entities of one name, in whatever circuits, get one name if both are skipped or both are not and their
scopes have the same names at first. -/
theorem KeywordRun.same {circuit out other otherOut : Circuit} {skips otherSkips : SkipSet}
    (run : KeywordRun circuit out skips) (otherRun : KeywordRun other otherOut otherSkips)
    {entity twin : Entity} (inside : entity ∈ circuit.entities) (twinInside : twin ∈ other.entities)
    (sameName : twin.target.terminalName = entity.target.terminalName)
    (alike : otherSkips.contains twin.target = skips.contains entity.target)
    (beside : ∀ name, name ∈ circuit.namesBeside entity.place ↔ name ∈ other.namesBeside twin.place) :
    out.nameAt? entity.place = otherOut.nameAt? twin.place := by
  obtain ⟨given, atPlace, settled⟩ := run.settled entity inside
  obtain ⟨otherGiven, atTwin, otherSettled⟩ := otherRun.settled twin twinInside
  unfold SkipSet.Settles at settled otherSettled
  rw [sameName, alike] at otherSettled
  rw [atPlace, atTwin]
  split at settled
  next both =>
    rw [if_pos both] at otherSettled
    rw [settled.unique otherSettled beside]
  next neither =>
    rw [if_neg neither] at otherSettled
    rw [settled, otherSettled]

/-- What the pass against the keywords of Verilog calls each thing. A keyword that is not skipped is escaped
by as few underscores, at least one, as make it none of the names that its scope had at first, and any other
name stays. So all that counts is which names the scope had: not the order in which modules are taken, not the
order of what is declared, not what else is skipped; and the circuit and its main module, unless that is
skipped, stay of one name. -/
theorem Pass.run_escapes_keywords {circuit out : Circuit} {ledger result : Ledger} {skips : SkipSet}
    (decoded : circuit.Decoded) (distinct : circuit.Distinct)
    (unskipped : skips.contains (.circuit circuit.main) = false)
    (run : (Pass.ofSpec .verilogKeywords).run circuit ledger skips = .ok (out, result)) :
    (∀ entity ∈ circuit.entities, ∃ given, out.nameAt? entity.place = some given ∧
      if entity.target.terminalName ∈ verilogKeywords ∧ skips.contains entity.target = false
      then Escapes (circuit.namesBeside entity.place) entity.target.terminalName given
      else given = entity.target.terminalName) ∧
    (∀ other otherOut otherSkips, KeywordRun other otherOut otherSkips →
      ∀ entity ∈ circuit.entities, ∀ twin ∈ other.entities, twin.target.terminalName =
        entity.target.terminalName →
      otherSkips.contains twin.target = skips.contains entity.target →
      (∀ name, name ∈ circuit.namesBeside entity.place ↔ name ∈ other.namesBeside twin.place) →
      out.nameAt? entity.place = otherOut.nameAt? twin.place) ∧
    ∀ home module, circuit.modules[home]? = some module → module.name = circuit.main →
      skips.contains (.module (circuit.home module)) = false →
        out.nameAt? (.module home) = out.nameAt? .circuit := by
  obtain ⟨renames, changed, -⟩ := (Pass.run_eq_ok unskipped).mp run
  obtain ⟨order, ordered⟩ := Plan.renameCircuit_order changed
  have listed : circuit.ListedBy order :=
    (Circuit.listedBy_iff distinct).mpr
      ⟨Circuit.leafToRoot_perm ordered, (Circuit.leafToRoot_spec ordered).2.2.1⟩
  have own : KeywordRun circuit out skips :=
    ⟨decoded, distinct, unskipped, _, Circuit.leafToRoot, order, ledger, result, ordered, listed, run⟩
  refine ⟨own.settled, fun other otherOut otherSkips otherRun entity inside twin twinInside => ?_, ?_⟩
  · exact own.same otherRun inside twinInside
  · intro home module atHome isMain alsoUnskipped
    have inside := Circuit.mem_entities.mpr (.module atHome)
    have circuitInside : (⟨.circuit, .circuit circuit.main⟩ : Entity) ∈ circuit.entities :=
      Circuit.mem_entities.mpr .circuit
    exact own.same own inside circuitInside isMain.symm (unskipped.trans alsoUnskipped.symm) fun _ => Iff.rfl

namespace Circuit.Sample

/-- Names that are keywords, beside some that are taken by their escapes. -/
def keywords : Circuit where
  main := "table"
  modules :=
    [.regular ⟨"table", [⟨"input", .input, .uint none⟩],
    [.node "reg_" (.ref "input"), .wire "reg" (.uint none)]⟩, .regular ⟨"table_", [], []⟩]

theorem keywords_decoded : keywords.Decoded :=
  ⟨Blocked.value "table" [Blocked.moduleValue "table" [port "input"]
    [.object [("kind", .string "node"), ("name", .string "reg_"), ("value", ref "input")],
      .object [("kind", .string "wire"), ("name", .string "reg"),
        ("type", .object [("kind", .string "uint")])]],
    Blocked.moduleValue "table_" [] []], by cbv⟩

end Circuit.Sample

open Circuit in
theorem Pass.run_sample_escapes : ∃ out result,
    (Pass.ofSpec .verilogKeywords).run Sample.keywords .empty .empty = .ok (out, result) ∧
      (∃ given, out.nameAt? (.declaration 0 (.stmt 1)) = some given ∧
        Escapes ["input", "reg_", "reg"] "reg" given) ∧
      out.nameAt? (.module 0) = some out.main := by
  have succeeds :
      ((Pass.ofSpec .verilogKeywords).run Sample.keywords .empty .empty).toOption.isSome = true := by
    decide +kernel
  obtain ⟨⟨out, result⟩, ran⟩ := Option.isSome_iff_exists.mp succeeds
  have run := toOption_eq_some.mp ran
  obtain ⟨each, -, main⟩ := Pass.run_escapes_keywords Sample.keywords_decoded (by decide) rfl run
  have wire : (⟨.declaration 0 (.stmt 1), .reference ⟨"table", "table", [], "reg", []⟩⟩ : Entity) ∈
      Sample.keywords.entities := by
    decide +kernel
  obtain ⟨given, atPlace, escapes⟩ := each _ wire
  rw [if_pos (by decide +kernel)] at escapes
  exact ⟨out, result, run, ⟨given, atPlace, escapes⟩, main 0 _ rfl rfl rfl⟩

end CircuitNames
