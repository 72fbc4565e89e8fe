import CircuitNames.Proofs.Pipelines
import CircuitNames.Proofs.RunFaults

namespace CircuitNames

namespace Ledger

/-- The form in which passes write an entry: something declared in its module or a port of a memory there,
with one replacement, which is of the same kind and differs in its terminal name only. -/
structure Entry.InPassForm (entry : Entry) : Prop where
  isLocal : entry.source.isLocal = true
  fields : ∀ reference, entry.source = .reference reference → reference.fields.length ≤ 1
  single : ∃ replacement, entry.replacements = [replacement] ∧ replacement.kind = entry.source.kind ∧
    replacement = entry.source.withTerminalName replacement.terminalName

/-- The ledger that a sequence of passes shares has entries of one form only: a target, and the same target
with another last name. -/
theorem Regular.inPassForm {ledger : Ledger} (regular : ledger.Regular) :
    ∀ entry ∈ ledger.entries, entry.InPassForm := by
  intro entry inside
  obtain ⟨address, last, -, -, rfl⟩ := regular entry inside
  refine ⟨?_, ?_, address.target.withTerminalName last, rfl, Target.kind_withTerminalName _ _, ?_⟩
  · cases address <;> rfl
  · rintro reference same
    cases address with
    | circuit name => cases same
    | module home => cases same
    | inst home name callee => cases same
    | reference home name =>
      obtain rfl := Target.reference.inj same
      exact Nat.zero_le 1
    | port home memory name =>
      obtain rfl := Target.reference.inj same
      exact Nat.le_refl 1
  · rw [Target.terminalName_withTerminalName]

/-- Nothing moves on when nothing was renamed. -/
theorem Regular.compose_empty_right {ledger : Ledger} (regular : ledger.Regular) :
    ledger.compose .empty = .ok ledger := by
  rw [regular.compose_eq regular_empty]
  have kept : ∀ entry ∈ ledger.entries, ledger.moved .empty entry = entry := by
    intro entry inside
    obtain ⟨address, last, -, -, rfl⟩ := regular entry inside
    rw [moved_eq, nameAfter, name_of_not_contains rfl, Target.terminalName_withTerminalName]
  rw [List.map_congr_left kept, List.map_id']
  exact congrArg (fun entries => Except.ok (Ledger.mk entries)) (List.append_nil _)

end Ledger

/-- A pass on a shared ledger does what it does on a ledger of its own that then goes into the shared one. -/
theorem Pass.run_eq_ok_own {pass : Pass} {circuit out : Circuit} {ledger result : Ledger} {skips : SkipSet}
    (regular : ledger.Regular) : pass.run circuit ledger skips = .ok (out, result) ↔
      ∃ own, pass.run circuit .empty skips = .ok (out, own) ∧ ledger.compose own = .ok result := by
  cases skipped : Pass.leavesAlone skips circuit with
  | true =>
    rw [run_leavesAlone skipped, run_leavesAlone skipped]
    constructor
    · intro same
      obtain ⟨rfl, rfl⟩ := Prod.mk.inj (Except.ok.inj same)
      exact ⟨.empty, rfl, regular.compose_empty_right⟩
    · rintro ⟨own, same, composed⟩
      obtain ⟨rfl, rfl⟩ := Prod.mk.inj (Except.ok.inj same)
      rw [Except.ok.inj (composed.symm.trans regular.compose_empty_right)]
  | false =>
    rw [run_eq_ok skipped, run_empty skipped]

/-- The circuits and shared ledgers that sequences of passes lead to, whatever is skipped, from a first
circuit and an empty ledger. -/
inductive Runs (first : Circuit) : Circuit → Ledger → Prop
  | start : Runs first first .empty
  | shared {circuit out : Circuit} {ledger result : Ledger} {spec : RuleSpec} {skips : SkipSet}
      (earlier : Runs first circuit ledger) (proper : spec.Proper)
      (run : (Pass.ofSpec spec).run circuit ledger skips = .ok (out, result)) : Runs first out result
  | own {circuit out : Circuit} {ledger own result : Ledger} {spec : RuleSpec} {skips : SkipSet}
      (earlier : Runs first circuit ledger) (proper : spec.Proper)
      (run : (Pass.ofSpec spec).run circuit .empty skips = .ok (out, own))
      (composed : ledger.compose own = .ok result) : Runs first out result

namespace Runs

variable {first circuit : Circuit} {ledger : Ledger}

/-- Between passes the names are identifiers, distinct in each scope, and the ledger is regular. -/
theorem sound (runs : Runs first circuit ledger) (identified : first.Identified) (distinct : first.Distinct) :
    circuit.Identified ∧ circuit.Distinct ∧ ledger.Regular := by
  have step {circuit out : Circuit} {ledger own result : Ledger} {spec : RuleSpec} {skips : SkipSet}
      (sound : circuit.Identified ∧ circuit.Distinct ∧ ledger.Regular) (proper : spec.Proper)
      (run : (Pass.ofSpec spec).run circuit .empty skips = .ok (out, own))
      (composed : ledger.compose own = .ok result) : out.Identified ∧ out.Distinct ∧ result.Regular := by
    obtain ⟨identified, distinct, regular⟩ := sound
    have left := Pass.run_leaves identified distinct run
    exact ⟨left.identified proper, left.distinct, regular.compose (left.regular proper) composed⟩
  induction runs with
  | start => exact ⟨identified, distinct, Ledger.regular_empty⟩
  | shared _ proper run ih =>
    obtain ⟨own, ran, composed⟩ := (Pass.run_eq_ok_own ih.2.2).mp run
    exact step ih proper ran composed
  | own _ proper run composed ih => exact step ih proper run composed

/-- The ledger that passes share stays in the form in which passes write, and never fails: what a further pass
renames can go into it, so that the pass runs on it as it does on a ledger of its own, whatever is named by
identifiers can be tracked in it, and no pass fails on it because of a change of kind. -/
theorem ledger_holds (runs : Runs first circuit ledger) (decoded : first.Decoded)
    (distinct : first.Distinct) :
    (∀ entry ∈ ledger.entries, entry.InPassForm) ∧
    (∀ (spec : RuleSpec) (skips : SkipSet), spec.Proper →
      (∀ out own, (Pass.ofSpec spec).run circuit .empty skips = .ok (out, own) →
        ∃ result, ledger.compose own = .ok result ∧
          (Pass.ofSpec spec).run circuit ledger skips = .ok (out, result)) ∧
      ∀ fault, (Pass.ofSpec spec).run circuit ledger skips = .error fault → fault.code? ≠ some .kindChange) ∧
    ∀ target : Target, target.Identified → ∃ tracked, ledger.track target = .ok tracked := by
  obtain ⟨identified, isDistinct, regular⟩ := runs.sound decoded.identified distinct
  refine ⟨regular.inPassForm, fun spec skips proper => ⟨fun out own run => ?_, ?_⟩, fun target names => ?_⟩
  · have left := Pass.run_leaves identified isDistinct run
    have composed := regular.compose_eq (left.regular proper)
    exact ⟨_, composed, (Pass.run_eq_ok_own regular).mpr ⟨own, run, composed⟩⟩
  · have quiet : KeepsKinds ((Pass.ofSpec spec).run circuit ledger skips) := by
      unfold Pass.run
      split
      · exact .ok _
      · refine .bind (Plan.renameCircuit_keepsKinds _ identified isDistinct.inside) ?_
        rintro ⟨out, renames⟩ changed
        obtain ⟨order, ordered⟩ := Plan.renameCircuit_order changed
        have left :=
          RuleSpec.leaves_of_renameCircuit (identified.ready isDistinct.inside ordered) ordered changed
        have composed := regular.compose_eq (left.regular proper)
        simp only [composed]
        exact .ok _
    exact quiet
  · exact ⟨_, regular.plain.track_renamed fun _ => names.component⟩

end Runs

open Circuit in
/-- After two passes, a port is tracked that is seen through an instance, a field below it included. -/
theorem Runs.sample_ledger_holds : ∃ out ledger, Runs Sample.circuit out ledger ∧
    (∀ entry ∈ ledger.entries, entry.InPassForm) ∧
    ∃ tracked, ledger.track (.reference ⟨"Top", "Top", [⟨"U", "Sub"⟩], "A", ["b", "c"]⟩) = .ok tracked := by
  have both : (((Pass.ofSpec .lowerCase).run Sample.circuit .empty .empty).toOption.bind fun result =>
      ((Pass.ofSpec (.prepend "x")).run result.1 result.2 .empty).toOption).isSome = true := by decide +kernel
  obtain ⟨⟨out, ledger⟩, ran⟩ := Option.isSome_iff_exists.mp both
  obtain ⟨⟨between, early⟩, first, second⟩ := Option.bind_eq_some_iff.mp ran
  have runs : Runs Sample.circuit out ledger :=
    (Runs.start.shared (by decide) (toOption_eq_some.mp first)).shared (by decide)
      (toOption_eq_some.mp second)
  obtain ⟨form, -, tracks⟩ := runs.ledger_holds Sample.decoded Sample.distinct
  have names : (Target.reference ⟨"Top", "Top", [⟨"U", "Sub"⟩], "A", ["b", "c"]⟩).Identified := by
    simp only [Target.Identified, Target.names]
    decide
  exact ⟨out, ledger, runs, form, tracks _ names⟩

end CircuitNames
