import CircuitNames.Proofs.ArgumentGrammar
import CircuitNames.Proofs.WrittenResults

namespace CircuitNames

namespace Arguments

/-- The arguments without the option for the ledger, wherever it stands. -/
def withoutRenames : List String → List String
  | [] => []
  | [last] => [last]
  | argument :: next :: rest =>
    match Flag.ofText? argument with
    | some .renames => withoutRenames rest
    | some _ => argument :: next :: withoutRenames rest
    | none => argument :: withoutRenames (next :: rest)

theorem setFlag_renames_none {dir : Path} {options set : Options} {value : String} {flag : Flag}
    (done : setFlag dir options value flag = .ok set) (other : flag ≠ .renames) :
    setFlag dir { options with renames := none } value flag = .ok { set with renames := none } := by
  cases flag with
  | renames => exact absurd rfl other
  | emit =>
    simp only [setFlag] at done ⊢
    split at done <;> cases done <;> rfl
  | _ =>
    cases done
    rfl

theorem setInput_renames_none {dir : Path} {options set : Options} {argument : String}
    (done : setInput dir options argument = .ok set) :
    setInput dir { options with renames := none } argument = .ok { set with renames := none } := by
  simp only [setInput] at done ⊢
  split at done
  · cases done
  · split at done
    · cases done
    · split at done
      · cases done
      · cases done
        simp [*]

/-- Leaving out the option for the ledger changes nothing else that is read. -/
theorem readOptions_withoutRenames {dir : Path} {argv : List String} {options found : Options}
    (read : readOptions dir options argv = .ok found) :
    readOptions dir { options with renames := none } (withoutRenames argv) =
      .ok { found with renames := none } := by
  -- The options are general: each argument adds to them before the rest is read.
  induction argv using withoutRenames.induct generalizing options with
  | case1 =>
    cases read
    rfl
  | case2 last =>
    cases known : Flag.ofText? last with
    | some flag =>
      rw [readOptions, known] at read
      cases read
    | none =>
      rw [readOptions_input known] at read
      obtain ⟨set, done, finished⟩ := bind_eq_ok.mp read
      cases finished
      rw [withoutRenames, readOptions_input known, setInput_renames_none done]
      rfl
  | case3 argument next rest isRenames ih =>
    rw [readOptions, isRenames] at read
    obtain ⟨set, done, finished⟩ := bind_eq_ok.mp read
    cases done
    rw [withoutRenames, isRenames]
    exact (ih finished :)
  | case4 argument next rest flag other isFlag ih =>
    rw [readOptions, isFlag] at read
    obtain ⟨set, done, finished⟩ := bind_eq_ok.mp read
    have kept : withoutRenames (argument :: next :: rest) = argument :: next :: withoutRenames rest := by
      rw [withoutRenames, isFlag]
      cases flag <;> first | rfl | exact (other rfl).elim
    rw [kept, readOptions, isFlag]
    exact bind_ok (setFlag_renames_none done other) (ih finished)
  | case5 argument next rest plain ih =>
    rw [readOptions_input plain] at read
    obtain ⟨set, done, finished⟩ := bind_eq_ok.mp read
    rw [withoutRenames, plain, readOptions_input plain]
    exact bind_ok (setInput_renames_none done) (ih finished)

/-- Without the option for the ledger the other arguments are read as before. -/
theorem read_withoutRenames {dir : Path} {argv : List String} {arguments : Arguments}
    (asked : read dir argv = .ok arguments) :
    read dir (withoutRenames argv) = .ok { arguments with renames := none } := by
  obtain ⟨options, found, made⟩ := bind_eq_ok.mp asked
  refine bind_ok (readOptions_withoutRenames found) ?_
  cases input : options.input with
  | none =>
    rw [input] at made
    cases made
  | some path =>
    rw [input] at made
    cases made
    rfl

end Arguments

namespace RenameCommand

variable {dir : Path} {argv : List String} {arguments : Arguments} {session after : Session} {fault : Fault}

theorem quiet_config (asked : Option Path) : (config dir asked).Quiet := by
  refine Task.Quiet.bind (fun _ => rfl) fun found => ?_
  dsimp only
  cases asked <|> nearestConfig? found.files dir with
  | none => exact Task.quiet_pure _
  | some path => exact (Task.quiet_readJson path).bind fun _ => Task.quiet_ofExcept _

theorem quiet_startLedger (asked : Option Path) : (startLedger asked).Quiet := by
  cases asked with
  | none => exact Task.quiet_pure _
  | some path => exact (Task.quiet_readJson path).bind fun _ => Task.quiet_ofExcept _

theorem quiet_runPasses (passes : List PassConfig) (circuit : Circuit) (ledger : Ledger) :
    (runPasses passes circuit ledger).Quiet := by
  induction passes generalizing circuit ledger with
  | nil => exact Task.quiet_pure _
  | cons pass rest ih =>
    exact (Task.quiet_ofExcept _).bind fun step => (Task.quiet_log _).bind fun _ =>
      ih step.circuit step.shared

/-- Nothing is written before the last pass has run. -/
theorem quiet_prepare (dir : Path) (arguments : Arguments) : (prepare dir arguments).Quiet :=
  (quiet_config _).bind fun _ => (quiet_startLedger _).bind fun _ => (Task.quiet_readJson _).bind fun _ =>
    (Task.quiet_ofExcept _).bind fun _ => quiet_runPasses _ _ _

/-- What cannot be left has a file that cannot be written, and then nothing has happened. -/
theorem leave_eq_error {given : Option Path} {text : String} {otherwise : Task Unit}
    (sure : ∀ session, (otherwise session).1 = .ok ())
    (run : leave given text otherwise session = (.error fault, after)) :
    ∃ path why, given = some path ∧ session.files.write path text = .error why ∧ fault = .file why ∧
      after = session := by
  cases given with
  | none =>
    have ended := sure session
    rw [show otherwise session = _ from run] at ended
    cases ended
  | some path =>
    change Task.writeFile path text session = _ at run
    rw [Task.writeFile_run] at run
    cases written : session.files.write path text with
    | ok files =>
      rw [written] at run
      cases run
    | error why =>
      rw [written] at run
      cases run
      exact ⟨path, why, rfl, written, rfl, rfl⟩

variable {report : Report}

theorem leaveLedger_eq_ok {left : Report} (run : leaveLedger arguments left session = (.ok report, after)) :
    report = left ∧ ∀ path, after.files.find? path =
      if arguments.renames = some path then some (.file report.ledger.toJson.fileText)
        else session.files.find? path := by
  obtain ⟨_, _, written, done⟩ := Task.bind_eq_ok.mp run
  cases done
  exact ⟨rfl, leave_ok (Task.quiet_pure ()) written⟩

/-- The last step fails where the ledger cannot be written. -/
theorem leaveLedger_eq_error {left : Report}
    (run : leaveLedger arguments left session = (.error fault, after)) :
    ∃ path why, arguments.renames = some path ∧
      session.files.write path left.ledger.toJson.fileText = .error why ∧
      fault = .file why ∧ after = session := by
  rcases Task.bind_eq_error.mp run with failed | ⟨_, _, _, done⟩
  · exact leave_eq_error (fun _ => rfl) failed
  · cases done

/-- What comes before the ledger is written touches one file at most, and only as its last act. -/
theorem produce_eq_ok (run : produce dir arguments session = (.ok report, after)) (path : Path) :
    after.files.find? path = if arguments.out = some path then some (.file report.output)
      else session.files.find? path := by
  obtain ⟨result, between, prepared, left⟩ := Task.bind_eq_ok.mp run
  obtain ⟨_, _, written, done⟩ := Task.bind_eq_ok.mp left
  cases done
  rw [leave_ok (Task.quiet_log _) written path, (quiet_prepare dir arguments).files prepared]

/-- A run that fails before it leaves the files as they were: it writes only after everything is read and
every pass has run, first the circuit and then the ledger. -/
theorem produce_eq_error (run : produce dir arguments session = (.error fault, after)) :
    after.files = session.files := by
  rcases Task.bind_eq_error.mp run with failed | ⟨result, between, prepared, left⟩
  · exact (quiet_prepare dir arguments).files failed
  · rcases Task.bind_eq_error.mp left with failed | ⟨_, _, _, done⟩
    · obtain ⟨_, _, _, _, _, rfl⟩ := leave_eq_error (fun _ => rfl) failed
      exact (quiet_prepare dir arguments).files prepared
    · cases done

/-- Without a file for the circuit nothing is written before the ledger. -/
theorem produce_quiet (unasked : arguments.out = none) : (produce dir arguments).Quiet := by
  refine (quiet_prepare dir arguments).bind fun result => Task.Quiet.bind ?_ fun _ => Task.quiet_pure _
  rw [unasked]
  exact Task.quiet_log _

/-- A run that is asked for the ledger is the run that is not, and then the ledger is written. -/
theorem run_eq_withoutRenames (asked : Arguments.read dir argv = .ok arguments) :
    run dir (Arguments.withoutRenames argv) = produce dir arguments ∧
      run dir argv = run dir (Arguments.withoutRenames argv) >>= leaveLedger arguments := by
  have without : run dir (Arguments.withoutRenames argv) = produce dir arguments := by
    rw [run_eq, Arguments.read_withoutRenames asked]
    change produce dir arguments >>= pure = _
    exact bind_pure _
  refine ⟨without, ?_⟩
  rw [without, run_eq, asked]
  rfl

/-- A run that succeeds has written the files it was asked for and no other, the ledger last. A run that fails
leaves the files as they were, but for one case: it was asked for both, it has written the circuit as the run
does that is not asked for the ledger, and then the ledger cannot be written. -/
theorem run_writes_all_none_or_circuit (dir : Path) (argv : List String) (session : Session) :
    (∀ report after, run dir argv session = (.ok report, after) →
      ∃ arguments, Arguments.read dir argv = .ok arguments ∧ ∀ path, after.files.find? path =
        if arguments.renames = some path then some (.file report.ledger.toJson.fileText)
        else if arguments.out = some path then some (.file report.output) else session.files.find? path) ∧
    ∀ fault after, run dir argv session = (.error fault, after) → after.files = session.files ∨
      ∃ arguments out renames report why, Arguments.read dir argv = .ok arguments ∧
        arguments.out = some out ∧ arguments.renames = some renames ∧
        run dir (Arguments.withoutRenames argv) session = (.ok report, after) ∧
        (∀ path, after.files.find? path = if path = out then some (.file report.output)
          else session.files.find? path) ∧
        after.files.write renames report.ledger.toJson.fileText = .error why ∧ fault = .file why := by
  cases asked : Arguments.read dir argv with
  | error complaint =>
    have refused : run dir argv session = (.error (.arguments complaint), session) := by
      rw [run_eq, asked]
      rfl
    refine ⟨fun report after ran => ?_, fun fault after ran => .inl ?_⟩
    · cases refused.symm.trans ran
    · cases refused.symm.trans ran
      rfl
  | ok arguments =>
    obtain ⟨without, split⟩ := run_eq_withoutRenames asked
    rw [split, without]
    refine ⟨fun report after ran => ?succeeded, fun fault after ran => ?failed⟩
    case succeeded =>
      obtain ⟨left, between, produced, stored⟩ := Task.bind_eq_ok.mp ran
      obtain ⟨rfl, atRenames⟩ := leaveLedger_eq_ok stored
      refine ⟨arguments, rfl, fun path => ?_⟩
      rw [atRenames, produce_eq_ok produced]
    case failed =>
      rcases Task.bind_eq_error.mp ran with stopped | ⟨report, between, produced, refused⟩
      · exact .inl (produce_eq_error stopped)
      · obtain ⟨renames, why, toRenames, unwritten, rfl, rfl⟩ := leaveLedger_eq_error refused
        -- Only a circuit that went to a file is left; one that was logged is not.
        cases toOut : arguments.out with
        | none => exact .inl ((produce_quiet toOut).files produced)
        | some out =>
          refine .inr ⟨arguments, out, renames, report, why, rfl, toOut, toRenames, produced,
            fun path => ?_, unwritten, rfl⟩
          rw [produce_eq_ok produced path, toOut]
          simp only [Option.some.injEq, eq_comm]

end RenameCommand

namespace RenameCommand.Sample

/-- The circuit of one external module once more, on its own. -/
def alone : Session where
  files := FileTree.empty.addFile ⟨["c.json"]⟩ value.fileText
  log := []

/-- A ledger that is to go to a directory that is not there. -/
def misplaced : List String := ["c.json", "--out", "o.json", "--renames", "missing/r.json"]

theorem misplaced_refused : ∃ after text, run .root misplaced alone = (.error (.file .noEntry), after) ∧
    after.files.find? ⟨["o.json"]⟩ = some (.file text) := by
  have seen : (match run .root misplaced alone with
      | (.error fault, after) => some (fault, ((after.files.read ⟨["o.json"]⟩).toOption.isSome : Bool))
      | (.ok _, _) => none) = some (.file .noEntry, true) := by decide +kernel
  rcases ran : run .root misplaced alone with ⟨fault | report, after⟩
  · rw [ran] at seen
    obtain ⟨rfl, there⟩ := Prod.mk.inj (Option.some.inj seen)
    obtain ⟨text, found⟩ := Option.isSome_iff_exists.mp there
    have read := toOption_eq_some.mp found
    rw [FileTree.read] at read
    refine ⟨after, text, rfl, ?_⟩
    split at read <;> cases read
    assumption
  · rw [ran] at seen
    cases seen

theorem nothing_there : alone.files.find? ⟨["o.json"]⟩ = none := by decide +kernel

end RenameCommand.Sample

open RenameCommand in
theorem RenameCommand.run_sample_writes :
    (∃ report after, RenameCommand.run .root Sample.argv (Sample.session "u_") = (.ok report, after) ∧
      ∀ path, after.files.find? path =
        if some ⟨["r.json"]⟩ = some path then some (.file report.ledger.toJson.fileText)
        else if some ⟨["o.json"]⟩ = some path then some (.file report.output)
        else (Sample.session "u_").files.find? path) ∧
    ∃ report after, RenameCommand.run .root Sample.misplaced Sample.alone = (.error (.file .noEntry), after) ∧
      RenameCommand.run .root ["c.json", "--out", "o.json"] Sample.alone = (.ok report, after) := by
  constructor
  · have succeeds : (RenameCommand.run .root Sample.argv (Sample.session "u_")).1.toOption.map
        (fun _ => true) = some true := by
      decide +kernel
    obtain ⟨report, ran, -⟩ := Option.map_eq_some_iff.mp succeeds
    have run := Task.eq_ok_of_toOption ran
    obtain ⟨arguments, asked, atPath⟩ := (run_writes_all_none_or_circuit _ _ _).1 report _ run
    obtain rfl := Except.ok.inj (Sample.asked.symm.trans asked)
    exact ⟨report, _, run, atPath⟩
  · obtain ⟨after, text, refused, there⟩ := Sample.misplaced_refused
    rcases (run_writes_all_none_or_circuit _ _ _).2 _ _ refused
      with same | ⟨_, _, _, report, _, _, _, _, completes, -⟩
    · rw [same, Sample.nothing_there] at there
      cases there
    · exact ⟨report, after, refused, completes⟩

open RenameCommand in
/-- The ledger cannot be written, the run fails, and the file of the circuit is there though it was not
before. -/
theorem RenameCommand.run_misplaced_ledger_leaves_circuit :
    ∃ after text, RenameCommand.run .root Sample.misplaced Sample.alone = (.error (.file .noEntry), after) ∧
      Sample.alone.files.find? ⟨["o.json"]⟩ = none ∧ after.files.find? ⟨["o.json"]⟩ = some (.file text) := by
  obtain ⟨after, text, refused, there⟩ := Sample.misplaced_refused
  exact ⟨after, text, refused, Sample.nothing_there, there⟩

end CircuitNames
