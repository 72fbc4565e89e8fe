import CircuitNames.Command.Rename
import CircuitNames.Proofs.PassResults
import CircuitNames.Proofs.Places

namespace CircuitNames

theorem Pass.step_eq_ok {pass : Pass} {circuit : Circuit} {shared : Ledger} {skips : SkipSet} {step : Step} :
    pass.step circuit shared skips = .ok step ↔
      pass.run circuit .empty skips = .ok (step.circuit, step.own) ∧
        shared.compose step.own = .ok step.shared := by
  rw [Pass.step, bind_eq_ok]
  constructor
  · rintro ⟨⟨renamed, own⟩, ran, run⟩
    obtain ⟨composed, atShared, same⟩ := bind_eq_ok.mp run
    obtain rfl := Except.ok.inj same
    exact ⟨ran, atShared⟩
  · rintro ⟨ran, atShared⟩
    exact ⟨_, ran, bind_eq_ok.mpr ⟨_, atShared, rfl⟩⟩

/-- What a pass of a pipeline leaves is fit for the next one: names stay identifiers and distinct, the ledger
of the pass is regular and renames the circuit, and it goes into the shared one. -/
theorem Pass.step_spec {spec : RuleSpec} (proper : spec.Proper) {circuit : Circuit}
    (identified : circuit.Identified) (distinct : circuit.Distinct) {shared : Ledger}
    {skips : SkipSet} {step : Step} (run : (Pass.ofSpec spec).step circuit shared skips = .ok step) :
    step.circuit.Identified ∧ step.circuit.Distinct ∧ step.own.Regular ∧
      Renaming step.own.name circuit step.circuit ∧ shared.compose step.own = .ok step.shared := by
  obtain ⟨ran, atShared⟩ := Pass.step_eq_ok.mp run
  have left := Pass.run_leaves identified distinct ran
  exact ⟨left.identified proper, left.distinct, left.regular proper, left.renamed, atShared⟩

/-- A ledger leads from an address to what stands at a place. -/
def Ledger.Tracks (ledger : Ledger) (address : Address) (circuit : Circuit) (place : Place) : Prop :=
  ∃ current, circuit.addressAt? place = some current ∧ ledger.track address.target = .ok current.target

/-- What holds between the passes of a pipeline, with the ledgers of those that have run. -/
structure Reached (first : Circuit) (history : List Ledger) (circuit : Circuit) (shared : Ledger) : Prop where
  identified : circuit.Identified
  distinct : circuit.Distinct
  regular : ∀ own ∈ history, own.Regular
  composed : Ledger.composeAll history = .ok shared
  places : ∀ place, circuit.addressAt? place =
    (first.addressAt? place).map (Address.renamed (Ledger.currentName history))

namespace Reached

variable {first circuit : Circuit} {history : List Ledger} {shared : Ledger}

theorem start (identified : first.Identified) (distinct : first.Distinct) :
    Reached first [] first .empty where
  identified := identified
  distinct := distinct
  regular := List.forall_mem_nil _
  composed := rfl
  places place := by
    have same : Address.renamed Target.terminalName = id := funext Address.renamed_terminalName
    change _ = (first.addressAt? place).map (Address.renamed Target.terminalName)
    rw [same, Option.map_id, id]

variable (reached : Reached first history circuit shared)
include reached

theorem step {spec : RuleSpec} (proper : spec.Proper) {skips : SkipSet} {step : Step}
    (run : (Pass.ofSpec spec).step circuit shared skips = .ok step) :
    Reached first (step.own :: history) step.circuit step.shared := by
  obtain ⟨identified, distinct, regular, renamed, composed⟩ :=
    Pass.step_spec proper reached.identified reached.distinct run
  refine ⟨identified, distinct, List.forall_mem_cons.mpr ⟨regular, reached.regular⟩, ?_, fun place => ?_⟩
  · exact bind_eq_ok.mpr ⟨shared, reached.composed, composed⟩
  · rw [renamed.addressAt?_eq, reached.places, Option.map_map]
    exact congrArg (Option.map · _) (funext (Ledger.renamed_currentName step.own history))

/-- The shared ledger tracks an address just when it agrees with the ledgers of the single passes about it. -/
theorem tracks_iff {place : Place} {address : Address} (names : address.Identified)
    (atPlace : first.addressAt? place = some address) :
    shared.Tracks address circuit place ↔ Ledger.Agrees history address := by
  rw [← Ledger.track_composeAll reached.regular reached.composed names]
  simp [Ledger.Tracks, reached.places, atPlace]

end Reached

namespace RenameCommand

/-- What the passes leave, one after the other. -/
def steps : List PassConfig → Circuit → Ledger → Except Fault (List Step)
  | [], _, _ => .ok []
  | pass :: rest, circuit, ledger => do
    let step ← (Pass.ofSpec pass.spec).step circuit ledger pass.skips
    return step :: (← steps rest step.circuit step.shared)

theorem runPasses_cons {pass : PassConfig} {rest : List PassConfig} {circuit : Circuit} {ledger : Ledger}
    {session after : Session} {result : Circuit × Ledger}
    (run : runPasses (pass :: rest) circuit ledger session = (.ok result, after)) :
    ∃ step between, (Pass.ofSpec pass.spec).step circuit ledger pass.skips = .ok step ∧
      runPasses rest step.circuit step.shared between = (.ok result, after) := by
  rw [runPasses] at run
  cases stepped : (Pass.ofSpec pass.spec).step circuit ledger pass.skips with
  | error fault =>
    rw [stepped] at run
    cases run
  | ok step =>
    rw [stepped] at run
    exact ⟨step, _, rfl, run⟩

/-- What every pass of a pipeline keeps, the pipeline keeps. -/
theorem runPasses_kept {P : Circuit → Ledger → Prop} {passes : List PassConfig}
    (each : ∀ pass ∈ passes, ∀ {circuit ledger step}, P circuit ledger →
      (Pass.ofSpec pass.spec).step circuit ledger pass.skips = .ok step → P step.circuit step.shared)
    {circuit out : Circuit} {ledger shared : Ledger} {session after : Session} (start : P circuit ledger)
    (run : runPasses passes circuit ledger session = (.ok (out, shared), after)) : P out shared := by
  induction passes generalizing circuit ledger session with
  | nil =>
    obtain ⟨same, -⟩ := Prod.mk.inj run
    obtain ⟨rfl, rfl⟩ := Prod.mk.inj (Except.ok.inj same)
    exact start
  | cons pass rest ih =>
    obtain ⟨first, later⟩ := List.forall_mem_cons.mp each
    obtain ⟨step, between, stepped, run⟩ := runPasses_cons run
    exact ih later (first start stepped) run

/-- The ledgers of the passes, the latest first. -/
def history (steps : List Step) : List Ledger := (steps.map Step.own).reverse

/-- What a pipeline returns is reached by the passes that it has run. -/
theorem runPasses_reached {passes : List PassConfig} (proper : ∀ pass ∈ passes, pass.spec.Proper)
    {first circuit out : Circuit} {earlier : List Ledger} {ledger shared : Ledger} {session after : Session}
    (reached : Reached first earlier circuit ledger)
    (run : runPasses passes circuit ledger session = (.ok (out, shared), after)) :
    ∃ left, steps passes circuit ledger = .ok left ∧ Reached first (history left ++ earlier) out shared ∧
      ∀ {place address}, first.addressAt? place = some address → address.Identified →
        (Ledger.Unstranded earlier address ∧ (∀ step ∈ left, step.shared.Tracks address step.circuit place) ↔
          Ledger.Unstranded (history left ++ earlier) address) := by
  induction passes generalizing circuit ledger earlier session with
  | nil =>
    obtain ⟨same, -⟩ := Prod.mk.inj run
    obtain ⟨rfl, rfl⟩ := Prod.mk.inj (Except.ok.inj same)
    exact ⟨[], rfl, reached, fun _ _ => by simp [history]⟩
  | cons pass rest ih =>
    obtain ⟨isProper, others⟩ := List.forall_mem_cons.mp proper
    obtain ⟨step, between, stepped, later⟩ := runPasses_cons run
    -- The history lists the latest pass first, so what the rest adds comes before the ledger of this pass.
    have next := reached.step isProper stepped
    obtain ⟨left, taken, final, tracks⟩ := ih others next later
    have joins : history (step :: left) ++ earlier = history left ++ step.own :: earlier := by simp [history]
    refine ⟨step :: left, bind_eq_ok.mpr ⟨step, stepped, bind_eq_ok.mpr ⟨left, taken, rfl⟩⟩,
      joins ▸ final, ?_⟩
    intro place address atPlace names
    rw [joins, ← tracks atPlace names, List.forall_mem_cons, ← and_assoc]
    refine and_congr_left fun _ => and_congr_right fun unstranded => ?_
    rw [next.tracks_iff names atPlace, Ledger.agrees_cons unstranded.agrees]

/-- Where the shared ledger of a pipeline leads. Every entity of the first circuit is found at its place in
the last one, and the target it had in the first is tracked there just when the composed ledgers have the name
that the passes gave to each component. This is so after every pass just when no pass strands a component: one
that no earlier pass recorded under its names in the first circuit, and for which the ledger of the pass has
another name under the names it has by then. -/
theorem runPasses_tracks_iff {passes : List PassConfig} {circuit out : Circuit} {shared : Ledger}
    {session after : Session} (decoded : circuit.Decoded) (distinct : circuit.Distinct)
    (proper : ∀ pass ∈ passes, pass.spec.Proper)
    (run : runPasses passes circuit .empty session = (.ok (out, shared), after)) :
    ∃ left, steps passes circuit .empty = .ok left ∧
      ∀ place address, circuit.addressAt? place = some address →
        out.addressAt? place = some (address.renamed (Ledger.currentName (history left))) ∧
        (shared.Tracks address out place ↔ Ledger.Agrees (history left) address) ∧
        ((∀ step ∈ left, step.shared.Tracks address step.circuit place) ↔
          Ledger.Unstranded (history left) address) := by
  have start := Reached.start decoded.identified distinct
  obtain ⟨left, taken, final, tracks⟩ := runPasses_reached proper start run
  rw [List.append_nil] at final tracks
  refine ⟨left, taken, fun place address atPlace => ⟨?_, ?_, ?_⟩⟩
  · rw [final.places, atPlace, Option.map_some]
  · exact final.tracks_iff (decoded.identified.addressAt? atPlace) atPlace
  · rw [← tracks atPlace (decoded.identified.addressAt? atPlace)]
    exact (and_iff_right trivial).symm

theorem run_of_view {passes : List PassConfig} {circuit : Circuit} {session : Session} {α : Type}
    {view : Circuit × Ledger → α} {seen : α}
    (given : (runPasses passes circuit .empty session).1.toOption.map view = some seen) :
    ∃ out shared after, runPasses passes circuit .empty session = (.ok (out, shared), after) ∧
      view (out, shared) = seen := by
  obtain ⟨⟨out, shared⟩, ran, atView⟩ := Option.map_eq_some_iff.mp given
  exact ⟨out, shared, _, Prod.ext (toOption_eq_some.mp ran) rfl, atView⟩

end RenameCommand

/-- Two passes, the second of which puts a letter in front of every name. -/
def Circuit.Sample.passes : List PassConfig := [⟨.lowerCase, .empty⟩, ⟨.prepend "x", .empty⟩]

open Circuit in
theorem RenameCommand.runPasses_sample_tracks_iff :
    ∃ out shared after, runPasses Sample.passes Sample.circuit .empty ⟨.empty, []⟩ =
      (.ok (out, shared), after) ∧
      ∃ left, steps Sample.passes Sample.circuit .empty = .ok left ∧
        ∀ place address, Sample.circuit.addressAt? place = some address →
          out.addressAt? place = some (address.renamed (Ledger.currentName (history left))) ∧
          (shared.Tracks address out place ↔ Ledger.Agrees (history left) address) ∧
          ((∀ step ∈ left, step.shared.Tracks address step.circuit place) ↔
            Ledger.Unstranded (history left) address) := by
  have succeeds : (runPasses Sample.passes Sample.circuit .empty ⟨.empty, []⟩).1.toOption.map
      (fun _ => true) = some true := by decide +kernel
  obtain ⟨out, shared, after, run, -⟩ := run_of_view succeeds
  exact ⟨out, shared, after, run, runPasses_tracks_iff Sample.decoded Sample.distinct (by decide) run⟩

namespace Circuit.Stranding

/-- A wire in a module that carries the name of the circuit. The first pass renames the circuit and the
module, the second one the wire. -/
def value : Json := .object [("main", .string "C"), ("modules", .array [
  .object [("kind", .string "module"), ("name", .string "C"), ("ports", .array []), ("body", .array [.object
    [("kind", .string "wire"), ("name", .string "w"), ("type", .object [("kind", .string "uint")])]])]])]

def circuit : Circuit := ⟨"C", [.regular ⟨"C", [], [.wire "w" (.uint none)]⟩]⟩

def passes : List PassConfig := [⟨.keywords ["C"], .empty⟩, ⟨.keywords ["w"], .empty⟩]

def place : Place := .declaration 0 (.stmt 0)

def wire : Address := .reference ⟨"C", "C"⟩ "w"

theorem decoded : circuit.Decoded := ⟨value, by cbv⟩

theorem distinct : circuit.Distinct := by decide

end Circuit.Stranding

open Circuit in
/-- The second pass records the wire under the names that the first one gave to its module, and the shared
ledger, asked under the names it had, finds nothing. -/
theorem RenameCommand.runPasses_strands_wire : Stranding.circuit.Decoded ∧ Stranding.circuit.Distinct ∧
    ∃ out shared after, runPasses Stranding.passes Stranding.circuit .empty ⟨.empty, []⟩ =
      (.ok (out, shared), after) ∧
      Stranding.circuit.addressAt? Stranding.place = some Stranding.wire ∧
      out.addressAt? Stranding.place = some (.reference ⟨"C_", "C_"⟩ "w_") ∧
      shared.track Stranding.wire.target = .ok (Address.reference ⟨"C_", "C_"⟩ "w").target := by
  have given : (runPasses Stranding.passes Stranding.circuit .empty ⟨.empty, []⟩).1.toOption.map
      (fun result => (result.1.addressAt? Stranding.place,
        (result.2.track Stranding.wire.target).toOption)) =
      some (some (.reference ⟨"C_", "C_"⟩ "w_"), some (Address.reference ⟨"C_", "C_"⟩ "w").target) := by
    decide +kernel
  obtain ⟨out, shared, after, run, seen⟩ := run_of_view given
  obtain ⟨atPlace, tracked⟩ := Prod.mk.inj seen
  exact ⟨Stranding.decoded, Stranding.distinct, out, shared, after, run, rfl, atPlace,
    toOption_eq_some.mp tracked⟩

end CircuitNames
