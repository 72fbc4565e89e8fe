import CircuitNames.Config
import CircuitNames.Proofs.AcceptedLedgers
import Mathlib.Data.Finset.Card

namespace CircuitNames

theorem nodup_eraseDups {α : Type} [BEq α] [LawfulBEq α] (items : List α) : items.eraseDups.Nodup := by
  cases items with
  | nil => exact List.nodup_nil
  | cons item rest =>
    rw [List.eraseDups_cons, List.nodup_cons]
    exact ⟨by simp, nodup_eraseDups (rest.filter fun other => !other == item)⟩
termination_by items.length
decreasing_by simpa using Nat.lt_succ_of_le (List.length_filter_le (fun other => !other == item) rest)

namespace Target

/-- The instances that lead from the module of a target to the module that it is in. -/
def hops : Target → List Hop
  | .circuit _ | .module _ => []
  | .inst target => target.path
  | .reference target => target.path

/-- What a reference selects in what it names. -/
def selected : Target → List String
  | .reference target => target.fields
  | _ => []

/-- A target that can be skipped: no instance leads to it, and it selects one field at most. -/
def Skippable (target : Target) : Prop := target.hops = [] ∧ target.selected.length ≤ 1

theorem not_skippable_iff {target : Target} :
    ¬target.Skippable ↔ target.hops ≠ [] ∨ 1 < target.selected.length := by
  rw [Skippable, not_and_or, Nat.not_le]

end Target

namespace SkipSet

variable {target : Target} {targets : List Target} {texts : List String} {skips : SkipSet}

/-- A target may be skipped if it is declared in a module itself and is no deeper than a port of a memory. The
path is looked at first. -/
theorem check_eq (target : Target) : check target =
    if target.hops ≠ [] then .error (.skipNotLocal target)
    else if 1 < target.selected.length then .error (.skipBelowField target) else .ok () := by
  cases target with
  | circuit name => rfl
  | module target => rfl
  | inst target =>
    obtain ⟨circuit, home, path, own, callee⟩ := target
    cases path <;> rfl
  | reference target =>
    obtain ⟨circuit, home, path, ref, fields⟩ := target
    cases path <;> rfl

theorem check_eq_ok : check target = .ok () ↔ target.Skippable := by
  rw [check_eq, Target.Skippable]
  split
  next remote => simpa using fun home => absurd home remote
  next home =>
    rw [not_not] at home
    split
    next deep => simpa [home] using deep
    next shallow => simpa [home] using shallow

theorem ofTargets_eq_ok :
    ofTargets targets = .ok skips ↔ (∀ target ∈ targets, target.Skippable) ∧ skips = ⟨targets⟩ := by
  simp only [← check_eq_ok, ← forM_eq_ok]
  constructor
  · intro run
    obtain ⟨⟨⟩, passed, same⟩ := bind_eq_ok.mp run
    exact ⟨passed, (Except.ok.inj same).symm⟩
  · rintro ⟨passed, rfl⟩
    exact bind_ok passed rfl

/-- The first target that cannot be skipped is the one that is refused. -/
theorem ofTargets_eq_error {fault : Fault} : ofTargets targets = .error fault ↔ ∃ before target after,
    targets = before ++ target :: after ∧ (∀ other ∈ before, other.Skippable) ∧
      check target = .error fault := by
  simp only [← check_eq_ok, ← forM_eq_error]
  refine bind_eq_error.trans ⟨?_, Or.inl⟩
  rintro (failed | ⟨_, -, failed⟩)
  · exact failed
  · cases failed

/-- All texts are read before any target is looked at, and what is accepted matches just what is listed. -/
theorem parse_eq_ok : parse texts = .ok skips ↔
    texts.mapM Target.parse = .ok skips.targets ∧ ∀ target ∈ skips.targets, target.Skippable := by
  rw [parse, bind_eq_ok]
  constructor
  · rintro ⟨targets, read, run⟩
    obtain ⟨skippable, rfl⟩ := ofTargets_eq_ok.mp run
    exact ⟨read, skippable⟩
  · rintro ⟨read, skippable⟩
    exact ⟨skips.targets, read, ofTargets_eq_ok.mpr ⟨skippable, rfl⟩⟩

/-- Texts are refused as malformed just when one of them is, whatever the others say. -/
theorem parse_malformed_iff : (∃ fault, parse texts = .error fault ∧ fault.code? = some .malformedTarget) ↔
    ∃ text ∈ texts, text.toList ∉ Grammar.target := by
  constructor
  · rintro ⟨fault, failed, malformed⟩
    rcases bind_eq_error.mp failed with unread | ⟨targets, -, failed⟩
    · obtain ⟨text, inside, stopped⟩ := exists_of_mapM_eq_error unread
      exact ⟨text, inside, (Target.parse_eq_error stopped).1⟩
    · obtain ⟨before, target, after, -, -, stopped⟩ := ofTargets_eq_error.mp failed
      rw [check_eq] at stopped
      split at stopped
      · cases Except.error.inj stopped ▸ malformed
      · split at stopped
        · cases Except.error.inj stopped ▸ malformed
        · cases stopped
  · rintro ⟨text, inside, outside⟩
    cases read : texts.mapM Target.parse with
    | ok targets =>
      obtain ⟨target, -, parsed⟩ := exists_of_mem_left (mapM_eq_ok.mp read) inside
      exact absurd (Target.parses_iff.mp ⟨target, parsed⟩) outside
    | error fault =>
      obtain ⟨other, -, stopped⟩ := exists_of_mapM_eq_error read
      exact ⟨fault, bind_eq_error.mpr (Or.inl read), (Target.parse_eq_error stopped).2⟩

section Read
variable (read : texts.mapM Target.parse = .ok targets)
include read

theorem parse_of_read : parse texts = ofTargets targets := by rw [parse, read]; rfl

theorem identified_of_read : ∀ target ∈ targets, target.Identified := by
  intro target inside
  obtain ⟨text, -, parsed⟩ := exists_of_mem_right (mapM_eq_ok.mp read) inside
  exact (Target.parse_eq_ok_iff.mp parsed).1

/-- What is skipped by its text is one of the targets that were read. -/
theorem contains_iff_of_read (names : target.Identified) : (SkipSet.mk targets).contains target = true ↔
    target ∈ targets := by
  rw [contains, List.any_eq_true]
  constructor
  · rintro ⟨other, inside, same⟩
    exact Target.eq_of_text_eq (identified_of_read read other inside) names (beq_iff_eq.mp same) ▸ inside
  · exact fun inside => ⟨target, inside, BEq.rfl⟩

/-- A target that is listed twice counts once. -/
theorem size_of_read : (SkipSet.mk targets).size = targets.toFinset.card := by
  have identified := identified_of_read read
  have apart : Set.InjOn Target.text (targets.toFinset : Set Target) := by
    intro target inside other otherInside same
    exact Target.eq_of_text_eq (identified _ (by simpa using inside))
      (identified _ (by simpa using otherInside)) same
  have texts : (targets.map Target.text).eraseDups.toFinset = targets.toFinset.image Target.text := by
    ext text
    simp
  rw [size, ← List.toFinset_card_of_nodup (nodup_eraseDups _), texts, Finset.card_image_of_injOn apart]

end Read

end SkipSet

namespace Config

theorem readSkips_parsed {record : Json.Record} {skips : SkipSet} (read : readSkips record = .ok skips) :
    ∃ texts, SkipSet.parse texts = .ok skips := by
  unfold readSkips at read
  split at read
  · exact ⟨[], read⟩
  · obtain ⟨texts, -, parsed⟩ := bind_eq_ok.mp read
    exact ⟨texts, parsed⟩

theorem readPass_parsed {position : Nat} {value : Json} {pass : PassConfig}
    (read : readPass position value = .ok pass) :
    ∃ texts, SkipSet.parse texts = .ok pass.skips := by
  obtain ⟨record, -, read⟩ := bind_eq_ok.mp read
  obtain ⟨spec, -, read⟩ := bind_eq_ok.mp read
  obtain ⟨skips, atSkips, same⟩ := bind_eq_ok.mp read
  obtain rfl := Except.ok.inj same
  exact readSkips_parsed atSkips

theorem readPasses_parsed {position : Nat} {values : List Json} {passes : List PassConfig}
    (read : readPasses position values = .ok passes) :
    ∀ pass ∈ passes, ∃ texts, SkipSet.parse texts = .ok pass.skips := by
  induction values generalizing position passes with
  | nil => exact Except.ok.inj read ▸ List.forall_mem_nil _
  | cons value rest ih =>
    obtain ⟨first, atFirst, read⟩ := bind_eq_ok.mp read
    obtain ⟨later, atLater, same⟩ := bind_eq_ok.mp read
    exact Except.ok.inj same ▸ List.forall_mem_cons.mpr ⟨readPass_parsed atFirst, ih atLater⟩

/-- What a value has to be for a configuration to be read from it. -/
theorem ofJson_eq_ok {value : Json} {config : Config} : ofJson value = .ok config ↔ ∃ record first rest,
    Json.asObject configFileName (some value) = .ok record ∧ record.allowOnly ["schema", "passes"] = .ok () ∧
      record.get? "schema" = some (.number 1) ∧ record.get? "passes" = some (.array (first :: rest)) ∧
      readPasses 0 (first :: rest) = .ok config.passes := by
  constructor
  · intro read
    obtain ⟨record, isObject, read⟩ := bind_eq_ok.mp read
    obtain ⟨_, allowed, read⟩ := bind_eq_ok.mp read
    dsimp only at read
    split at read
    · rename_i version atSchema
      split at read
      · cases read
      · rename_i isOne
        split at read
        · rename_i first rest atPasses
          obtain ⟨passes, atFirst, same⟩ := bind_eq_ok.mp read
          obtain rfl := Except.ok.inj same
          rw [not_not] at isOne
          exact ⟨record, first, rest, mapError_eq_ok.mp isObject, mapError_eq_ok.mp allowed, isOne ▸ atSchema,
            atPasses, atFirst⟩
        · cases read
    · cases read
  · rintro ⟨record, first, rest, isObject, allowed, atSchema, atPasses, read⟩
    refine bind_ok (mapError_eq_ok.mpr isObject) (bind_ok (mapError_eq_ok.mpr allowed) ?_)
    simp only [atSchema, atPasses, ne_eq, not_true_eq_false, if_false]
    exact bind_ok read rfl

/-- The skip sets of a configuration are read from texts, all of them. -/
theorem ofJson_parsed {value : Json} {config : Config} (read : ofJson value = .ok config) :
    ∀ pass ∈ config.passes, ∃ texts, SkipSet.parse texts = .ok pass.skips := by
  obtain ⟨record, first, rest, -, -, -, -, atPasses⟩ := ofJson_eq_ok.mp read
  exact readPasses_parsed atPasses

end Config

/-- Texts are refused with a fault, which is reported under a code. -/
def SkipSet.Refuses (texts : List String) (fault : Fault) (code : Code) : Prop :=
  parse texts = .error fault ∧ fault.code? = some code

/-- Skip sets take and match just what they should. Texts are refused as malformed when one of them is no text
of a target, also behind one that cannot be skipped. Otherwise they are refused when one of their targets
cannot be skipped; the first one of these is reported, and of its flaws that instances lead to it comes before
that it selects too much. A skip set that is read matches the targets that are listed and no others, and
counts each once. So whatever a configuration skips can be skipped. -/
theorem SkipSet.parse_exact :
    (∀ texts,
      ((∃ fault, Refuses texts fault .malformedTarget) ↔ ∃ text ∈ texts, text.toList ∉ Grammar.target) ∧
      ∀ targets, texts.mapM Target.parse = .ok targets →
        ((∃ fault, parse texts = .error fault) ↔
          ∃ target ∈ targets, target.hops ≠ [] ∨ 1 < target.selected.length) ∧
        (∀ before target after, targets = before ++ target :: after → (∀ other ∈ before, other.Skippable) →
          (target.hops ≠ [] → Refuses texts (.skipNotLocal target) .notLocal) ∧
          (target.hops = [] → 1 < target.selected.length →
            Refuses texts (.skipBelowField target) .belowField)) ∧
        ∀ skips, parse texts = .ok skips →
          (∀ target : Target, target.Identified → (skips.contains target = true ↔ target ∈ targets)) ∧
          skips.size = targets.toFinset.card) ∧
    ∀ value config, Config.ofJson value = .ok config → ∀ pass ∈ config.passes, ∀ target ∈ pass.skips.targets,
      target.Skippable := by
  refine ⟨fun texts =>
    ⟨parse_malformed_iff, fun targets read => ⟨?_, fun before target after splits passed => ?_, ?_⟩⟩, ?_⟩
  · simp only [parse_of_read read, ← Target.not_skippable_iff]
    constructor
    · rintro ⟨fault, failed⟩
      obtain ⟨before, target, after, rfl, -, stopped⟩ := ofTargets_eq_error.mp failed
      refine ⟨target, by simp, fun skippable => ?_⟩
      cases stopped.symm.trans (check_eq_ok.mpr skippable)
    · rintro ⟨target, inside, unfit⟩
      cases run : ofTargets targets with
      | error fault => exact ⟨fault, rfl⟩
      | ok skips => exact absurd ((ofTargets_eq_ok.mp run).1 target inside) unfit
  · have refused {fault : Fault} (stopped : check target = .error fault) : parse texts = .error fault := by
      rw [parse_of_read read]
      exact ofTargets_eq_error.mpr ⟨before, target, after, splits, passed, stopped⟩
    refine ⟨fun remote => ⟨refused ?_, rfl⟩, fun home deep => ⟨refused ?_, rfl⟩⟩
    · rw [check_eq, if_pos remote]
    · rw [check_eq, if_neg (not_not.mpr home), if_pos deep]
  · intro skips run
    rw [parse_of_read read] at run
    obtain ⟨-, rfl⟩ := ofTargets_eq_ok.mp run
    exact ⟨fun target names => contains_iff_of_read read names, size_of_read read⟩
  · intro value config read pass inside
    obtain ⟨texts, parsed⟩ := Config.ofJson_parsed read pass inside
    exact (parse_eq_ok.mp parsed).2

/-- A text that is malformed, behind one of a target below an instance; that target, behind another one; and a
list that has a port of a memory twice. -/
theorem SkipSet.parse_sample_exact :
    (∃ fault, Refuses ["~C|M/i:N>r", "C"] fault .malformedTarget) ∧
    Refuses ["~C|M>r", "~C|M/i:N>m.r.data"]
      (.skipNotLocal (.reference ⟨"C", "M", [⟨"i", "N"⟩], "m", ["r", "data"]⟩)) .notLocal ∧
    ∃ skips, parse ["~C|M>m.r", "~C|M", "~C|M>m.r"] = .ok skips ∧ skips.size = 2 ∧
      skips.contains (.reference ⟨"C", "M", [], "m", ["r"]⟩) = true := by
  obtain ⟨each, -⟩ := parse_exact
  refine ⟨(each _).1.mpr ⟨"C", by simp, fun inside => ?_⟩, ?_, ?_⟩
  · obtain ⟨target, read⟩ := Target.parses_iff.mpr inside
    cases read
  · have read : ["~C|M>r", "~C|M/i:N>m.r.data"].mapM Target.parse = .ok [.reference ⟨"C", "M", [], "r", []⟩,
        .reference ⟨"C", "M", [⟨"i", "N"⟩], "m", ["r", "data"]⟩] := by decide +kernel
    refine (((each _).2 _ read).2.1 [_] _ [] rfl (List.forall_mem_singleton.mpr ⟨rfl, ?_⟩)).1 ?_
    all_goals decide
  · let port : Target := .reference ⟨"C", "M", [], "m", ["r"]⟩
    let listed : List Target := [port, .module ⟨"C", "M"⟩, port]
    have read : ["~C|M>m.r", "~C|M", "~C|M>m.r"].mapM Target.parse = .ok listed := by decide +kernel
    have parsed : parse ["~C|M>m.r", "~C|M", "~C|M>m.r"] = .ok ⟨listed⟩ := by decide +kernel
    obtain ⟨-, -, answers⟩ := (each _).2 listed read
    obtain ⟨contains, size⟩ := answers _ parsed
    have names : port.Identified := by simp only [Target.Identified, Target.names, port]; decide
    exact ⟨_, parsed, size.trans (by decide), (contains port names).mpr List.mem_cons_self⟩

end CircuitNames
