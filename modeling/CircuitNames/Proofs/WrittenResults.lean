import CircuitNames.Proofs.ReadLedgers
import CircuitNames.Proofs.SplitPipelines
import CircuitNames.Proofs.WrittenJson

namespace CircuitNames

/-- The text is read as the circuit. -/
def Circuit.ReadFrom (circuit : Circuit) (text : String) : Prop :=
  ∃ value, Json.read? text = some value ∧ RenameCommand.decodeCircuit value = .ok circuit

/-- The text is read as a ledger with the same entries. -/
def Ledger.ReadFrom (ledger : Ledger) (text : String) : Prop :=
  ∃ value other, Json.read? text = some value ∧ Ledger.ofJson value = .ok other ∧
    other.entries.Perm ledger.entries

/-- The text of a circuit is read as that circuit just when its names are identifiers and its numbers are
written exactly. -/
theorem Circuit.readFrom_fileText_iff {circuit : Circuit} (formed : circuit.Formed fun _ => True) :
    circuit.ReadFrom circuit.toJson.fileText ↔ circuit.Identified ∧ circuit.Formed Number.Exact := by
  have regular := Circuit.toJson_regular formed
  rw [ReadFrom, Json.read?_fileText regular]
  constructor
  · rintro ⟨value, same, decoded⟩
    obtain rfl := Option.some.inj same
    have read := mapError_eq_ok.mp decoded
    have exact_ := (Json.written_regular regular).imp (fun _ _ => trivial) fun _ given => given
    exact ⟨Circuit.Decoded.identified ⟨_, read⟩, Decode.circuit_formed exact_ read⟩
  · rintro ⟨identified, exact_⟩
    have read := (Decode.circuit_toJson_iff formed).mpr identified
    exact ⟨_, congrArg some (Json.written_eq (Circuit.toJson_regular exact_)), mapError_eq_ok.mpr read⟩

/-- The text of a ledger is read as that ledger just when its names are identifiers. -/
theorem Ledger.readFrom_fileText_iff {ledger : Ledger} (keyed : ledger.Keyed) :
    ledger.ReadFrom ledger.toJson.fileText ↔ ledger.Identified := by
  rw [← Ledger.restored_iff keyed, ReadFrom, Json.read?_fileText (Ledger.toJson_regular keyed),
    Json.written_eq (Ledger.toJson_regular keyed)]
  simp

namespace Pass

variable {spec : RuleSpec} {circuit : Circuit} {shared : Ledger} {skips : SkipSet} {step : Step}

/-- A step keeps what can be written, and each rename once. -/
theorem step_formed {admits : Number → Prop} (run : (ofSpec spec).step circuit shared skips = .ok step) :
    (circuit.Formed admits → step.circuit.Formed admits) ∧ (shared.Keyed → step.shared.Keyed) := by
  obtain ⟨ran, composed⟩ := step_eq_ok.mp run
  have left : (circuit.Formed admits → step.circuit.Formed admits) ∧ step.own.Keyed := by
    rcases run_empty_cases ran with ⟨same, unused⟩ | changed
    · rw [same, unused]
      exact ⟨id, Ledger.keyed_empty⟩
    · exact Plan.renameCircuit_formed changed
  exact ⟨left.1, fun keyed => keyed.compose left.2 composed⟩

/-- A step with a proper rule keeps the names identifiers. -/
theorem step_identified (proper : spec.Proper) (run : (ofSpec spec).step circuit shared skips = .ok step)
    (identified : circuit.Identified) (names : shared.Identified) :
    step.circuit.Identified ∧ step.shared.Identified := by
  obtain ⟨ran, composed⟩ := step_eq_ok.mp run
  have left : step.circuit.Identified ∧ step.own.Identified := by
    rcases run_empty_cases ran with ⟨same, unused⟩ | changed
    · rw [same, unused]
      exact ⟨identified, List.forall_mem_nil _⟩
    · obtain ⟨out, sound⟩ := Plan.renameCircuit_sound (RuleSpec.identifies proper) identified changed
      exact ⟨out, sound.identified⟩
  exact ⟨left.1, names.compose left.2 composed⟩

end Pass

namespace RenameCommand

/-- The passes make up no numbers and no texts but names. -/
theorem runPasses_formed {passes : List PassConfig} {admits : Number → Prop} {circuit out : Circuit}
    {ledger shared : Ledger} {session after : Session} (formed : circuit.Formed admits) (keyed : ledger.Keyed)
    (run : runPasses passes circuit ledger session = (.ok (out, shared), after)) :
    out.Formed admits ∧ shared.Keyed :=
  runPasses_kept (P := fun circuit ledger => circuit.Formed admits ∧ ledger.Keyed)
    (fun _ _ _ _ _ before stepped => (Pass.step_formed stepped).imp (· before.1) (· before.2))
      ⟨formed, keyed⟩ run

theorem runPasses_identified {passes : List PassConfig} (proper : ∀ pass ∈ passes, pass.spec.Proper)
    {circuit out : Circuit} {ledger shared : Ledger} {session after : Session}
    (identified : circuit.Identified) (names : ledger.Identified)
    (run : runPasses passes circuit ledger session = (.ok (out, shared), after)) :
    out.Identified ∧ shared.Identified :=
  runPasses_kept (P := fun circuit ledger => circuit.Identified ∧ ledger.Identified)
    (fun pass inside _ _ _ before stepped =>
      Pass.step_identified (proper pass inside) stepped before.1 before.2)
    ⟨identified, names⟩ run

variable {dir : Path} {argv : List String} {session after : Session} {report : Report}

theorem config_keeps {asked : Option Path} {configuration : Config}
    (run : config dir asked session = (.ok configuration, after)) : after = session := by
  rw [config, Task.bind_eq_ok] at run
  obtain ⟨found, between, got, run⟩ := run
  obtain ⟨rfl, rfl⟩ := Task.get_eq_ok.mp got
  cases chosen : asked <|> nearestConfig? between.files dir with
  | none =>
    rw [chosen] at run
    exact (Prod.mk.inj run).2.symm
  | some path =>
    simp only [chosen, Task.bind_eq_ok, Task.ofExcept_eq_ok] at run
    obtain ⟨value, _, read, -, still⟩ := run
    obtain ⟨-, -, -, rfl⟩ := Task.readJson_eq_ok.mp read
    exact still

theorem startLedger_kept {asked : Option Path} {ledger : Ledger}
    (run : startLedger asked session = (.ok ledger, after)) :
    after = session ∧ ledger.Keyed ∧ ledger.Identified := by
  cases asked with
  | none =>
    obtain ⟨same, rfl⟩ := Prod.mk.inj run
    obtain rfl := Except.ok.inj same
    exact ⟨rfl, Ledger.keyed_empty, List.forall_mem_nil _⟩
  | some path =>
    rw [startLedger, Task.bind_eq_ok] at run
    obtain ⟨value, between, read, run⟩ := run
    obtain ⟨-, -, -, rfl⟩ := Task.readJson_eq_ok.mp read
    obtain ⟨loaded, still⟩ := Task.ofExcept_eq_ok.mp run
    exact ⟨still, Ledger.ofJson_kept loaded⟩

/-- Leaves a text in a file if one is given. -/
def leave (path : Option Path) (text : String) (otherwise : Task Unit) : Task Unit :=
  match path with
  | some path => Task.writeFile path text
  | none => otherwise

theorem leave_ok {given : Option Path} {text : String} {otherwise : Task Unit} {done : Unit}
    (quiet : otherwise.Quiet) (run : leave given text otherwise session = (.ok done, after)) (path : Path) :
    after.files.find? path = if given = some path then some (.file text) else session.files.find? path := by
  cases given with
  | none =>
    rw [quiet.files run]
    rfl
  | some written =>
    rw [Task.writeFile_ok run path]
    simp only [Option.some.injEq, eq_comm]

/-- All of a run before the first write. -/
def prepare (dir : Path) (arguments : Arguments) : Task (Circuit × Ledger) := do
  let config ← config dir arguments.config
  let ledger ← startLedger arguments.renamesIn
  let circuit ← Task.ofExcept (decodeCircuit (← Task.readJson arguments.input))
  runPasses config.passes circuit ledger

/-- Leaves the circuit in its file or in the log. -/
def leaveCircuit (arguments : Arguments) (result : Circuit × Ledger) : Task Report := do
  let output := render result.1 arguments.emit
  leave arguments.out output (Task.log (trimmedEnd output))
  return ⟨result.1, result.2, output⟩

/-- Leaves the ledger in its file if it has one. -/
def leaveLedger (arguments : Arguments) (report : Report) : Task Report := do
  leave arguments.renames report.ledger.toJson.fileText (pure ())
  return report

/-- A run, once its arguments are known, up to where the circuit is left. -/
def produce (dir : Path) (arguments : Arguments) :
    Task Report := prepare dir arguments >>= leaveCircuit arguments

theorem run_eq :
    run dir argv = Task.ofExcept ((Arguments.read dir argv).mapError .arguments) >>= fun arguments =>
    produce dir arguments >>= leaveLedger arguments := by
  rw [run]
  congr 1
  funext arguments
  simp only [produce, prepare, leaveCircuit, leaveLedger, leave, bind_assoc, pure_bind]
  cases arguments.out <;> cases arguments.renames <;> rfl

/-- What a successful run has read, and what it has made of that. -/
theorem run_eq_ok (run : RenameCommand.run dir argv session = (.ok report, after)) :
    ∃ arguments configuration ledger value circuit logged,
      Arguments.read dir argv = .ok arguments ∧
        config dir arguments.config session = (.ok configuration, session) ∧
      startLedger arguments.renamesIn session = (.ok ledger, session) ∧
      Task.readJson arguments.input session = (.ok value, session) ∧ decodeCircuit value = .ok circuit ∧
      runPasses configuration.passes circuit ledger session = (.ok (report.circuit, report.ledger), logged) ∧
      report.output = render report.circuit arguments.emit ∧
      (∀ path, arguments.out = some path → arguments.renames ≠ some path →
        after.files.find? path = some (.file report.output)) ∧
      (∀ path, arguments.renames = some path →
        after.files.find? path = some (.file report.ledger.toJson.fileText)) := by
  simp only [run_eq, produce, prepare, leaveCircuit, leaveLedger, Task.bind_eq_ok, Task.ofExcept_eq_ok] at run
  obtain ⟨arguments, _, ⟨asked, rfl⟩, _, _,
    ⟨⟨out, shared⟩, logged, ⟨configuration, _, atConfig, ledger, _, atLedger, value, _,
    atInput, circuit, _, ⟨decoded, rfl⟩, ran⟩, _, between, outRun, made⟩, _, _, renamesRun, done⟩ := run
  obtain rfl := config_keeps atConfig
  obtain rfl := (startLedger_kept atLedger).1
  obtain ⟨-, -, -, rfl⟩ := Task.readJson_eq_ok.mp atInput
  obtain ⟨same, rfl⟩ := Prod.mk.inj made
  obtain rfl := Except.ok.inj same
  obtain ⟨same, rfl⟩ := Prod.mk.inj done
  obtain rfl := Except.ok.inj same
  have atOut := leave_ok (Task.quiet_log _) outRun
  have atRenames := leave_ok (Task.quiet_pure ()) renamesRun
  refine ⟨arguments, configuration, ledger, value, circuit, logged, mapError_eq_ok.mp asked, atConfig,
    atLedger, atInput, decoded, ran, rfl, fun path isOut other => ?_, fun path isRenames => ?_⟩
  · rw [atRenames, if_neg other, atOut, if_pos isOut]
  · rw [atRenames, if_pos isRenames]

/-- What the command writes, the command can read again, as far as it can be written. The text of the circuit
is read as the circuit of the result just when its names are identifiers and its numbers are exact, and the
text of the ledger is read as a ledger with the entries of the result's just when the names in it are
identifiers. The names are if the configuration has proper passes only, and the numbers are those of the
circuit that was given. -/
theorem run_read_back_iff {arguments : Arguments} (asked : Arguments.read dir argv = .ok arguments)
    (emits : arguments.emit = .json) (run : RenameCommand.run dir argv session = (.ok report, after)) :
    (∀ path, arguments.out = some path → arguments.renames ≠ some path →
      after.files.find? path = some (.file report.output)) ∧
    (∀ path, arguments.renames = some path →
      after.files.find? path = some (.file report.ledger.toJson.fileText)) ∧
    (report.circuit.ReadFrom report.output ↔ report.circuit.Identified ∧ report.circuit.Formed Number.Exact) ∧
    (report.ledger.ReadFrom report.ledger.toJson.fileText ↔ report.ledger.Identified) ∧
    ∃ configuration value circuit, config dir arguments.config session = (.ok configuration, session) ∧
      Task.readJson arguments.input session = (.ok value, session) ∧ decodeCircuit value = .ok circuit ∧
      ((∀ pass ∈ configuration.passes, pass.spec.Proper) →
        report.circuit.Identified ∧ report.ledger.Identified) ∧
      (circuit.Formed Number.Exact → report.circuit.Formed Number.Exact) := by
  obtain ⟨_, configuration, ledger, value, circuit, logged, alsoAsked, atConfig, atLedger, atInput,
    decoded, ran, output, atOut, atRenames⟩ := run_eq_ok run
  obtain rfl := Except.ok.inj (asked.symm.trans alsoAsked)
  obtain ⟨-, keyed, names⟩ := startLedger_kept atLedger
  have decodes : circuit.Decoded := ⟨value, mapError_eq_ok.mp decoded⟩
  obtain ⟨wellFormed, kept⟩ := runPasses_formed decodes.formed keyed ran
  rw [emits] at output
  refine ⟨atOut, atRenames, ?_, Ledger.readFrom_fileText_iff kept, configuration, value, circuit, atConfig,
    atInput, decoded,
    fun proper => runPasses_identified proper decodes.identified names ran, fun start =>
      (runPasses_formed start keyed ran).1⟩
  rw [output]
  exact Circuit.readFrom_fileText_iff wellFormed

end RenameCommand

namespace RenameCommand.Sample

/-- A circuit of one external module. -/
def value : Json := .object [("main", .string "T"), ("modules", .array [.object
  [("kind", .string "extmodule"), ("name", .string "T"), ("ports", .array [])]])]

/-- A configuration that puts a text in front of every name. -/
def configuration (start : String) : Json := .object [("schema", .number 1),
  ("passes", .array [.object [("rule", .string "prefix"), ("prefix", .string start)]])]

def session (start : String) : Session where
  files := (FileTree.empty.addFile ⟨["c.json"]⟩ value.fileText).addFile ⟨[configFileName]⟩
    (configuration start).fileText
  log := []

def argv : List String := ["c.json", "--out", "o.json", "--renames", "r.json"]

def arguments : Arguments := ⟨⟨["c.json"]⟩, none, some ⟨["o.json"]⟩, some ⟨["r.json"]⟩, none, .json⟩

theorem asked : Arguments.read .root argv = .ok arguments := by decide +kernel

theorem configured :
    (config .root none (session "u_")).1.toOption = some ⟨[⟨.prepend "u_", .empty⟩]⟩ := by decide +kernel

theorem regular : value.Regular Json.Apart Number.Exact := by
  have keys : Json.Apart ["main", "modules"] ∧ Json.Apart ["kind", "name", "ports"] := by decide +kernel
  simp [value, Json.Regular, Json.RegularItems, Json.RegularFields, keys]

theorem input (start : String) : Task.readJson ⟨["c.json"]⟩ (session start) = (.ok value, session start) := by
  have back := Json.read?_fileText (regular.imp (fun _ apart => apart) fun _ _ => trivial)
  rw [Json.written_eq regular] at back
  exact Task.readJson_eq_ok.mpr ⟨_, rfl, back, rfl⟩

end RenameCommand.Sample

open RenameCommand in
theorem RenameCommand.run_sample_read_back :
    ∃ report after, RenameCommand.run .root Sample.argv (Sample.session "u_") = (.ok report, after) ∧
      after.files.find? ⟨["o.json"]⟩ = some (.file report.output) ∧
      after.files.find? ⟨["r.json"]⟩ = some (.file report.ledger.toJson.fileText) ∧
      report.circuit.ReadFrom report.output ∧ report.ledger.ReadFrom report.ledger.toJson.fileText := by
  have succeeds : (RenameCommand.run .root Sample.argv (Sample.session "u_")).1.toOption.map
      (fun _ => true) = some true := by
    decide +kernel
  obtain ⟨report, ran, -⟩ := Option.map_eq_some_iff.mp succeeds
  have run := Task.eq_ok_of_toOption ran
  obtain ⟨atOut, atRenames, circuitBack, ledgerBack, configuration, value, circuit, atConfig, atInput,
    decoded, identified, formed⟩ := run_read_back_iff Sample.asked rfl run
  have configured := Sample.configured
  rw [Sample.arguments] at atConfig
  rw [atConfig] at configured
  obtain rfl := Option.some.inj configured
  have isValue := (Sample.input "u_").symm.trans atInput
  obtain rfl := Except.ok.inj (Prod.mk.inj isValue).1
  obtain ⟨circuitNames, ledgerNames⟩ := identified (by decide)
  have exact_ := Decode.circuit_formed (Sample.regular.imp (fun _ _ => trivial) fun _ given => given)
    (mapError_eq_ok.mp decoded)
  exact ⟨report, _, run, atOut _ rfl (by decide), atRenames _ rfl,
    circuitBack.mpr ⟨circuitNames, formed exact_⟩, ledgerBack.mpr ledgerNames⟩

open RenameCommand in
/-- A prefix that starts with a digit is taken as well, and neither of the files that are written then can be
read. -/
theorem RenameCommand.run_digit_not_read_back :
    ∃ report after, RenameCommand.run .root Sample.argv (Sample.session "1") = (.ok report, after) ∧
      after.files.find? ⟨["o.json"]⟩ = some (.file report.output) ∧
      after.files.find? ⟨["r.json"]⟩ = some (.file report.ledger.toJson.fileText) ∧
      (∀ circuit : Circuit, ¬ circuit.ReadFrom report.output) ∧
        ¬ report.ledger.ReadFrom report.ledger.toJson.fileText := by
  have seen : (RenameCommand.run .root Sample.argv (Sample.session "1")).1.toOption.map (fun report =>
      (((Json.read? report.output).bind fun value => (decodeCircuit value).toOption).isSome,
        report.ledger.entries.head?.map (·.replacements))) =
          some (false, some [.circuit "1T"]) := by decide +kernel
  obtain ⟨report, ran, views⟩ := Option.map_eq_some_iff.mp seen
  obtain ⟨unread, renamed⟩ := Prod.mk.inj views
  have run := Task.eq_ok_of_toOption ran
  obtain ⟨arguments, _, _, value, _, _, asked, -, atLedger, -, decoded, ranPasses, -, atOut, atRenames⟩ :=
    run_eq_ok run
  obtain rfl := Except.ok.inj (Sample.asked.symm.trans asked)
  refine ⟨report, _, run, atOut _ rfl (by decide), atRenames _ rfl, ?_, fun back => ?_⟩
  · rintro circuit ⟨value, read, decoded⟩
    rw [read, Option.bind_some, decoded] at unread
    cases unread
  · have formed := Circuit.Decoded.formed ⟨value, mapError_eq_ok.mp decoded⟩
    have keyed := (runPasses_formed formed (startLedger_kept atLedger).2.1 ranPasses).2
    obtain ⟨entry, isFirst, same⟩ := Option.map_eq_some_iff.mp renamed
    have names := ((Ledger.readFrom_fileText_iff keyed).mp back entry (List.mem_of_head? isFirst)).2
      (.circuit "1T") (by simp [same])
    exact absurd (names "1T" (by simp [Target.names])) (by decide +kernel)

end CircuitNames
