import CircuitNames.Proofs.IdentifiedResults
import CircuitNames.Proofs.Renaming

namespace CircuitNames

/-- What a pass on a ledger of its own leaves: the circuit under the names of the ledger, which keep apart
what is declared in one scope. All names are identifiers again unless a prefix makes others. -/
structure RuleSpec.Leaves (spec : RuleSpec) (circuit out : Circuit) (ledger : Ledger) : Prop where
  plain : ledger.Plain
  renamed : Renaming ledger.name circuit out
  separates : circuit.Separates ledger.name
  distinct : out.Distinct
  regular : spec.Proper → ledger.Regular
  identified : spec.Proper → out.Identified

theorem Ledger.name_empty : Ledger.empty.name = Target.terminalName :=
  funext fun _ => name_of_not_contains rfl

/-- A pass that leaves the circuit alone renames nothing. -/
theorem RuleSpec.leaves_self (spec : RuleSpec) {circuit : Circuit} (identified : circuit.Identified)
    (distinct : circuit.Distinct) : spec.Leaves circuit circuit .empty where
  plain := Ledger.plain_empty
  renamed := Ledger.name_empty ▸ Renaming.refl circuit
  separates := Ledger.name_empty ▸ distinct.separates
  distinct := distinct
  regular _ := Ledger.regular_empty
  identified _ := identified

/-- What a rule has picked for every entity is something that it would not pick another name for. -/
theorem RuleSpec.leaves_of_renameCircuit {spec : RuleSpec} {skips : SkipSet} {circuit out : Circuit}
    {order : List Module} {renames : Ledger} (ready : circuit.Ready order)
    (ordered : circuit.leafToRoot = .ok order)
    (run : Plan.renameCircuit ⟨spec.rule, skips⟩ Circuit.leafToRoot circuit = .ok (out, renames)) :
    spec.Leaves circuit out renames := by
  have all := Circuit.leafToRoot_perm ordered
  have named := Plan.renameCircuit_renaming ⟨spec.rule, skips⟩ ready all ordered run
  have apart := Plan.naming_separates ⟨spec.rule, skips⟩ ready all spec.fair
  obtain ⟨-, rfl, -⟩ := (Plan.renameCircuit_eq_ok ⟨spec.rule, skips⟩ ready all ordered).mp run
  exact {
    plain := Plan.sweep_plain ⟨spec.rule, skips⟩ ready
    renamed := named
    separates := apart
    distinct := Plan.renameCircuit_distinct ⟨spec.rule, skips⟩ spec.fair ready all ordered run
    regular := fun proper => Plan.sweep_regular (spec.identifies proper) ready
    identified := fun proper => Plan.renameCircuit_identified (spec.identifies proper) ready all ordered run }

theorem Pass.run_leaves {spec : RuleSpec} {circuit out : Circuit} {ledger : Ledger} {skips : SkipSet}
    (identified : circuit.Identified) (distinct : circuit.Distinct)
    (run : (Pass.ofSpec spec).run circuit .empty skips = .ok (out, ledger)) :
    spec.Leaves circuit out ledger := by
  rcases Pass.run_empty_cases run with ⟨rfl, rfl⟩ | changed
  · exact spec.leaves_self identified distinct
  · obtain ⟨order, ordered⟩ := Plan.renameCircuit_order changed
    exact RuleSpec.leaves_of_renameCircuit (identified.ready distinct.inside ordered) ordered changed

end CircuitNames
