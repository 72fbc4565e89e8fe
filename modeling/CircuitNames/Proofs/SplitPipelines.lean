import CircuitNames.Proofs.AcceptedCircuits
import CircuitNames.Proofs.PassForms
import CircuitNames.Proofs.Pipelines
import CircuitNames.Proofs.Tasks
import CircuitNames.Proofs.WrittenLedgers

namespace CircuitNames

theorem Ledger.Sound.identified {ledger : Ledger} (sound : ledger.Sound) : ledger.Identified :=
  fun entry inside => ⟨(sound.kinded entry inside).1, sound.identifies entry inside⟩

/-- A circuit that can be written and read again, beside two sound ledgers with the same entries. -/
structure Resumable (circuit : Circuit) (ledger other : Ledger) : Prop where
  identified : circuit.Identified
  formed : circuit.Formed fun _ => True
  sound : ledger.Sound
  same : ledger.entries.Perm other.entries

namespace Resumable

variable {circuit : Circuit} {ledger other : Ledger} (resumable : Resumable circuit ledger other)
include resumable

theorem toJson_eq : other.toJson = ledger.toJson :=
  Ledger.toJson_perm resumable.sound.keyed resumable.sound.identified resumable.same

/-- A pass on either ledger fails with the same fault, or both leave the same circuit and the same renames. -/
theorem step {spec : RuleSpec} (proper : spec.Proper) (skips : SkipSet) :
    Alongside (fun one two => one.circuit = two.circuit ∧ one.own = two.own ∧
      Resumable one.circuit one.shared two.shared)
      ((Pass.ofSpec spec).step circuit ledger skips) ((Pass.ofSpec spec).step circuit other skips) := by
  have runs : Alongside
      (fun one two => one = two ∧ one.1.Identified ∧ one.1.Formed (fun _ => True) ∧ one.2.Sound)
      ((Pass.ofSpec spec).run circuit .empty skips) ((Pass.ofSpec spec).run circuit .empty skips) := by
    refine (Alongside.refl (R := Eq) (fun _ => rfl) _).imp_ok ?_
    rintro ⟨out, own⟩ _ run - rfl
    refine ⟨rfl, ?_⟩
    rcases Pass.run_empty_cases run with ⟨rfl, rfl⟩ | changed
    · exact ⟨resumable.identified, resumable.formed, Ledger.sound_empty⟩
    · obtain ⟨identified, sound⟩ :=
        Plan.renameCircuit_sound (RuleSpec.identifies proper) resumable.identified changed
      exact ⟨identified, (Plan.renameCircuit_formed changed).1 resumable.formed, sound⟩
  refine runs.bind ?_
  rintro ⟨out, own⟩ _ ⟨rfl, identified, formed, sound⟩
  obtain ⟨shared, composed, shareds⟩ := resumable.sound.compose sound
  obtain ⟨final, alsoComposed, same⟩ := resumable.sound.keyed.compose_perm resumable.same composed
  simp only [composed, alsoComposed]
  exact .ok ⟨rfl, rfl, identified, formed, shareds, same⟩

end Resumable

namespace RenameCommand

/-- What the files show of a result: the circuit, and the written form of the ledger. -/
def outcome (result : Circuit × Ledger) : Circuit × Json := (result.1, result.2.toJson)

/-- Goes on from what an earlier run has written. -/
def resume (passes : List PassConfig) (left : Circuit × Ledger) : Task (Circuit × Ledger) := do
  let circuit ← Task.ofExcept (decodeCircuit left.1.toJson)
  let ledger ← Task.ofExcept (Ledger.ofJson left.2.toJson)
  runPasses passes circuit ledger

/-- A pipeline that is cut in two goes on with its second half where the first one ends. -/
theorem runPasses_append (first later : List PassConfig) (circuit : Circuit) (ledger : Ledger) :
    runPasses (first ++ later) circuit ledger =
      runPasses first circuit ledger >>= fun left => runPasses later left.1 left.2 := by
  induction first generalizing circuit ledger with
  | nil => rfl
  | cons pass rest ih => simp only [List.cons_append, runPasses, ih, bind_assoc]

/-- The order of the entries of a ledger shows nowhere. -/
theorem runPasses_perm {passes : List PassConfig} (proper : ∀ pass ∈ passes, pass.spec.Proper)
    {circuit : Circuit} {ledger other : Ledger} (resumable : Resumable circuit ledger other) :
    outcome <$> runPasses passes circuit other = outcome <$> runPasses passes circuit ledger := by
  induction passes generalizing circuit ledger other with
  | nil =>
    simp only [runPasses, map_pure, outcome, resumable.toJson_eq]
  | cons pass rest ih =>
    obtain ⟨first, later⟩ := List.forall_mem_cons.mp proper
    have steps := resumable.step first pass.skips
    simp only [runPasses, map_bind]
    generalize (Pass.ofSpec pass.spec).step circuit ledger pass.skips = one at steps
    generalize (Pass.ofSpec pass.spec).step circuit other pass.skips = two at steps
    cases steps with
    | error fault => rfl
    | @ok one two related =>
      obtain ⟨circuit, shared, own⟩ := one
      obtain ⟨_, other, _⟩ := two
      obtain ⟨rfl, rfl, next⟩ := related
      change (pure _ >>= _) = (pure _ >>= _)
      simp only [pure_bind, ih later next]

/-- The second half reads the circuit and the ledger that the first half has written, where the entries of the
ledger are in another order; it goes on alike. -/
theorem runPasses_resumable {passes : List PassConfig} (proper : ∀ pass ∈ passes, pass.spec.Proper)
    {circuit out : Circuit} {ledger shared : Ledger} {session after : Session}
    (resumable : Resumable circuit ledger ledger) (run : runPasses passes circuit ledger session =
      (.ok (out, shared), after)) : Resumable out shared shared :=
  runPasses_kept (P := fun circuit ledger => Resumable circuit ledger ledger)
    (fun pass inside _ _ _ resumable stepped =>
      ((resumable.step (proper pass inside) pass.skips).related stepped stepped).2.2)
    resumable run

/-- A pipeline of proper passes that is cut in two, where the second half reads what the first half has
written, is the whole pipeline: it leaves the same circuit and the same written ledger and logs the same
counts, or it fails with the same fault at the same pass. -/
theorem runPasses_resume {circuit : Circuit} (decoded : circuit.Decoded) {first later : List PassConfig}
    (proper : ∀ pass ∈ first ++ later, pass.spec.Proper) :
    outcome <$> (runPasses first circuit .empty >>= resume later) =
      outcome <$> runPasses (first ++ later) circuit .empty := by
  obtain ⟨properFirst, properLater⟩ := List.forall_mem_append.mp proper
  rw [runPasses_append, map_bind, map_bind]
  refine Task.bind_congr fun session ⟨out, shared⟩ after run => ?_
  have start : Resumable circuit .empty .empty :=
    ⟨decoded.identified, decoded.formed, Ledger.sound_empty, .refl _⟩
  obtain ⟨identified, formed, sound, -⟩ := runPasses_resumable properFirst start run
  -- The second half starts from the same circuit, and from the same entries in another order.
  have reread : decodeCircuit out.toJson = .ok out := by
    rw [decodeCircuit, (Decode.circuit_toJson_iff formed).mpr identified]
    rfl
  have reloaded := Ledger.ofJson_toJson sound.keyed sound.identified
  simp only [resume, reread, reloaded]
  exact runPasses_perm properLater ⟨identified, formed, sound, shared.sorted_perm.symm⟩

end RenameCommand

open Circuit in
theorem RenameCommand.runPasses_sample_resume :
    ∃ out shared after, runPasses Sample.passes Sample.circuit .empty ⟨.empty, []⟩ =
      (.ok (out, shared), after) ∧
      (outcome <$> (runPasses [⟨.lowerCase, .empty⟩] Sample.circuit .empty >>=
        resume [⟨.prepend "x", .empty⟩])) ⟨.empty, []⟩ =
        (.ok (out, shared.toJson), after) := by
  have succeeds : (runPasses Sample.passes Sample.circuit .empty ⟨.empty, []⟩).1.toOption.map
      (fun _ => true) = some true := by decide +kernel
  obtain ⟨out, shared, after, run, -⟩ := run_of_view succeeds
  have proper : ∀ pass ∈ [⟨.lowerCase, .empty⟩] ++ [(⟨.prepend "x", .empty⟩ : PassConfig)],
    pass.spec.Proper := by decide
  have whole : runPasses ([⟨.lowerCase, .empty⟩] ++ [⟨.prepend "x", .empty⟩]) Sample.circuit
      .empty ⟨.empty, []⟩ = (.ok (out, shared), after) := run
  refine ⟨out, shared, after, run, ?_⟩
  rw [runPasses_resume Sample.decoded proper]
  exact Task.map_run whole

end CircuitNames
