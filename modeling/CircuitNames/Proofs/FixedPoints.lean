import CircuitNames.Proofs.Frames
import CircuitNames.Proofs.RecordedChanges
import CircuitNames.Proofs.RepeatedPasses

namespace CircuitNames

namespace RuleSpec

/-- The names that a rule leaves alone: those that are no keywords, or that the case mapping keeps. A text can
be put in front of every name. -/
def Fixes : RuleSpec → String → Prop
  | verilogKeywords, name => name ∉ CircuitNames.verilogKeywords
  | keywords words, name => name ∉ words
  | lowerCase, name => CircuitNames.lowerCase name = name
  | upperCase, name => CircuitNames.upperCase name = name
  | prepend _, _ => False

/-- A rule picks no name for those that it leaves alone, and one for each of the others. -/
theorem rule_keeps_iff {spec : RuleSpec} {name : String} {scope : Scope} :
    (spec.rule name scope).1 = none ↔ spec.Fixes name := by
  cases spec with
  | verilogKeywords | keywords words => exact Rule.avoidKeywords_keeps_iff
  | lowerCase | upperCase => exact Rule.changeCase_keeps_iff
  | prepend front => exact iff_of_false (by simp [rule, Rule.prepend]) id

end RuleSpec

/-- A mapping that maps the characters of identifiers one by one, and maps none of them twice. The characters
that a number brings along keep to themselves. -/
structure CaseMapping (map : String → String) (char : Char → Char) : Prop where
  identifier : ∀ {name}, isIdentifier name = true → isIdentifier (map name) = true
  chars : ∀ {name}, isIdentifier name = true → map name = String.ofList (name.toList.map char)
  again : ∀ {c}, Identifier.isTail c = true → char (char c) = char c
  mark : char '_' = '_'
  digit : ∀ {c}, Identifier.isTail c = true → c.isDigit = true → char c = c

namespace CaseMapping

theorem lowerCase : CaseMapping lowerCase Char.toLower where
  identifier := Identifier.lowerCase
  chars identifier :=
    congrArg String.ofList (Identifier.lowerChars_eq (Identifier.isTail_of_mem identifier) false)
  again := Identifier.of_isTail (P := fun c => c.toLower.toLower = c.toLower) (by decide +kernel)
  mark := by decide
  digit := Identifier.of_isTail (P := fun c => c.isDigit = true → c.toLower = c) (by decide +kernel)

theorem upperCase : CaseMapping upperCase Char.toUpper where
  identifier := Identifier.upperCase
  chars identifier := congrArg String.ofList (Identifier.upperChars_eq (Identifier.isTail_of_mem identifier))
  again := Identifier.of_isTail (P := fun c => c.toUpper.toUpper = c.toUpper) (by decide +kernel)
  mark := by decide
  digit := Identifier.of_isTail (P := fun c => c.isDigit = true → c.toUpper = c) (by decide +kernel)

variable {map : String → String} {char : Char → Char} (mapping : CaseMapping map char) {name : String}
  (identifier : isIdentifier name = true)
include mapping identifier

theorem map_map : map (map name) = map name := by
  rw [mapping.chars (mapping.identifier identifier), mapping.chars identifier,
    String.toList_ofList, List.map_map]
  refine congrArg String.ofList (List.map_congr_left fun c inside => ?_)
  exact mapping.again (Identifier.isTail_of_mem identifier c inside)

/-- What a number adds to a name has no case. -/
theorem map_numbered (fixed : map name = name) (index : Nat) :
    map (Scope.numbered name index) = Scope.numbered name index := by
  have chars : (Scope.numbered name index).toList = name.toList ++ '_' :: Nat.toDigits 10 index := by
    simp [Scope.numbered, toString, String.toList_append, Nat.toList_repr]
  have tails := Identifier.isTail_of_mem (Identifier.numbered identifier index)
  have digits : (Nat.toDigits 10 index).map char = Nat.toDigits 10 index := by
    refine (List.map_congr_left fun c inside => ?_).trans (List.map_id _)
    have isDigit := Nat.isDigit_of_mem_toDigits (by decide) (by decide) inside
    exact mapping.digit (tails c (by simp [chars, inside])) isDigit
  have own : name.toList.map char = name.toList := by
    have same := congrArg String.toList ((mapping.chars identifier).symm.trans fixed)
    rwa [String.toList_ofList] at same
  rw [mapping.chars (Identifier.numbered identifier index), chars, List.map_append, List.map_cons,
    mapping.mark, digits, own, ← chars, String.ofList_toList]

/-- What a change of case makes of a name is a name that it leaves alone: an index that is put behind a name
has no case. -/
theorem map_newName (scope : Scope) : map (scope.newName (map name)).1 = (scope.newName (map name)).1 := by
  have fixed := mapping.map_map identifier
  unfold Scope.newName
  split
  · exact mapping.map_numbered (mapping.identifier identifier) fixed _
  · exact fixed

/-- So any name that the rule picks is a fixed point of it. -/
theorem map_picked {scope : Scope} {fresh : String}
    (picks : (Rule.changeCase map name scope).1 = some fresh) :
    map fresh = fresh := by
  exact Rule.changeCase_picks picks ▸ mapping.map_newName identifier scope

end CaseMapping

namespace RuleSpec

/-- A name that a rule picks for an identifier is one that it leaves alone, unless it puts a text in front of
it. -/
theorem fixes_picked {spec : RuleSpec} (fixing : ∀ front, spec ≠ .prepend front)
    {name fresh : String} {scope : Scope} (identifier : isIdentifier name = true)
    (picks : (spec.rule name scope).1 = some fresh) : spec.Fixes fresh := by
  have outside {words : List String} (picks : (Rule.avoidKeywords words name scope).1 = some fresh) :
      fresh ∉ words := by
    have free := scope.allocate_not_mem name words (show "_" ≠ "" by decide)
    exact Rule.avoidKeywords_picks picks ▸ fun inside => free (List.mem_append_right _ inside)
  cases spec with
  | verilogKeywords => exact outside picks
  | keywords words => exact outside picks
  | lowerCase => exact CaseMapping.lowerCase.map_picked identifier picks
  | upperCase => exact CaseMapping.upperCase.map_picked identifier picks
  | prepend front => exact absurd rfl (fixing front)

/-- Where nothing is skipped, every name is given away for one that the rule leaves alone. -/
theorem fixes_pick {spec : RuleSpec} (fixing : ∀ front, spec ≠ .prepend front) {target : Target}
    (identifier : isIdentifier target.terminalName = true) (scope : Scope) :
    spec.Fixes (Plan.pick ⟨spec.rule, .empty⟩ target scope).1 := by
  have unskipped : SkipSet.empty.contains target = false := rfl
  cases picks : (spec.rule target.terminalName scope).1 with
  | none =>
    rw [Plan.pick_of_none unskipped picks]
    exact rule_keeps_iff.mp picks
  | some fresh =>
    rw [Plan.pick_of_some unskipped picks]
    exact fixes_picked fixing identifier picks

end RuleSpec

/-- What a renamed circuit declares stands where the circuit declares something. -/
theorem Renaming.exists_entity {names : Target → String} {circuit out : Circuit}
    (renamed : Renaming names circuit out) (framed : circuit.Framed out) {result : Entity}
    (inside : result ∈ out.entities) :
    ∃ entity ∈ circuit.entities, entity.place = result.place ∧
      result.target.terminalName = names entity.target := by
  obtain ⟨address, atPlace, -⟩ := Circuit.addressed_of_mem_entities inside
  rw [renamed.addressAt?_eq] at atPlace
  obtain ⟨own, atOwn, -⟩ := Option.map_eq_some_iff.mp atPlace
  have regular : ∀ home spot module, result.place = .declaration home spot →
      circuit.modules[home]? ≠ some (.external module) := by
    intro home spot module same atHome
    obtain ⟨other, atResult, became⟩ := getElem?_of_forall₂_left framed.modules atHome
    cases Circuit.mem_entities.mp inside with
    | circuit => cases same
    | module => cases same
    | memoryPort => cases same
    | declaration atOther =>
      cases same
      cases became
      cases atOther.symm.trans atResult
  obtain ⟨entity, isEntity, samePlace⟩ := Circuit.exists_entity atOwn regular
  have named := renamed.nameAt?_of_mem_entities isEntity
  rw [samePlace, Circuit.nameAt?_of_mem_entities inside] at named
  exact ⟨entity, isEntity, samePlace, Option.some.inj named⟩

/-- A keyword or case pass that skips nothing comes to a fixed point in one run. No name in its result is one
that it would change, and if it is run again it succeeds, leaves the result as it is and records nothing. -/
theorem Pass.run_reaches_fixedPoint {spec : RuleSpec} {circuit out : Circuit} {shared result : Ledger}
    (decoded : circuit.Decoded) (distinct : circuit.Distinct) (fixing : ∀ front, spec ≠ .prepend front)
    (run : (Pass.ofSpec spec).run circuit shared .empty = .ok (out, result)) :
    (∀ entity ∈ out.entities, spec.Fixes entity.target.terminalName) ∧
      (Pass.ofSpec spec).run out .empty .empty = .ok (out, .empty) := by
  let plan : Plan := ⟨spec.rule, .empty⟩
  obtain ⟨renames, changed, -⟩ := (run_eq_ok (by rfl)).mp run
  obtain ⟨order, ordered⟩ := Plan.renameCircuit_order changed
  have identified := decoded.identified
  have ready := identified.ready distinct.inside ordered
  have all := Circuit.leafToRoot_perm ordered
  have left := RuleSpec.leaves_of_renameCircuit ready ordered changed
  have renamed := plan.renameCircuit_renaming ready all ordered changed
  have framed := plan.renameCircuit_framed identified changed
  -- Every name in the result was picked in the run, and what such a rule picks it leaves alone.
  have fixed : ∀ entity ∈ out.entities, spec.Fixes entity.target.terminalName := by
    intro entity inside
    obtain ⟨own, isOwn, -, named⟩ := renamed.exists_entity framed inside
    have declares : own.target ∈ declared (circuit.actions order) :=
      (Circuit.mem_declared_iff all).mpr ⟨own, isOwn, rfl⟩
    have names := Circuit.declared_identified identified ready.ordered own.target declares
    obtain ⟨scope, picked⟩ := (plan.naming_gives ready).picked declares
    rw [named, picked]
    exact RuleSpec.fixes_pick fixing names.terminalName scope
  refine ⟨fixed, ?_⟩
  have proper : spec.Proper := by
    cases spec with
    | prepend front => exact absurd rfl (fixing front)
    | _ => trivial
  have succeeds : ∃ again, (Pass.ofSpec spec).run out .empty .empty = .ok again := by
    refine (run_succeeds_iff (left.identified proper) left.distinct.inside rfl fun renames _ =>
      ⟨renames, Ledger.compose_empty renames⟩).mpr
        ⟨?_, plan.renameCircuit_selectable ready all ordered changed⟩
    exact (left.ordered_iff ordered).mpr (run_leaves_main rfl rfl run)
  obtain ⟨⟨again, own⟩, rerun⟩ := succeeds
  -- So the second run has no name to pick, whatever its scopes are.
  have settled : ∀ entity ∈ out.entities, SkipSet.empty.contains entity.target = true ∨ ∀ scope fresh,
      (spec.rule entity.target.terminalName scope).1 = some fresh → fresh = entity.target.terminalName := by
    intro entity inside
    refine Or.inr fun scope fresh picks => ?_
    rw [RuleSpec.rule_keeps_iff.mpr (fixed entity inside)] at picks
    cases picks
  obtain ⟨rfl, stays⟩ := run_kept settled rerun
  rw [rerun, stays rfl]

open Circuit in
theorem Pass.run_sample_fixedPoint :
    ∃ out ledger, (Pass.ofSpec .lowerCase).run Sample.circuit .empty .empty = .ok (out, ledger) ∧
      (∀ entity ∈ out.entities, lowerCase entity.target.terminalName = entity.target.terminalName) ∧
      (Pass.ofSpec .lowerCase).run out .empty .empty = .ok (out, .empty) := by
  have runs : ((Pass.ofSpec .lowerCase).run Sample.circuit .empty .empty).toOption.isSome = true := by
    decide +kernel
  obtain ⟨⟨out, ledger⟩, ran⟩ := Option.isSome_iff_exists.mp runs
  have run := toOption_eq_some.mp ran
  exact ⟨out, ledger, run, Pass.run_reaches_fixedPoint Sample.decoded Sample.distinct (by simp) run⟩

end CircuitNames
