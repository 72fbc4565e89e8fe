import CircuitNames.Command.Rename
import CircuitNames.Proofs.Binds

namespace CircuitNames

namespace Task

variable {α β : Type} {task : Task α} {session after : Session} {fault : Fault}

theorem bind_run (f : α → Task β) : (task >>= f) session =
    match task session with
    | (.ok result, after) => f result after
    | (.error fault, after) => (.error fault, after) := by
  change ExceptT.bindCont f (task session).1 (task session).2 = _
  rcases task session with ⟨_ | result, after⟩ <;> rfl

theorem map_run {f : α → β} {result : α} (run : task session = (.ok result, after)) :
    (f <$> task) session = (.ok (f result), after) := by
  rw [map_eq_pure_bind, bind_run, run]
  rfl

theorem eq_ok_of_toOption {result : α} (given : (task session).1.toOption = some result) :
    task session = (.ok result, (task session).2) := Prod.ext (toOption_eq_some.mp given) rfl

/-- One task after another succeeds when the first does and the second one, from the session that the first
has left. -/
theorem bind_eq_ok {f : α → Task β} {result : β} : (task >>= f) session = (.ok result, after) ↔
    ∃ found between, task session = (.ok found, between) ∧ f found between = (.ok result, after) := by
  rw [bind_run]
  rcases task session with ⟨fault | found, between⟩
  · exact ⟨fun run => (nomatch run), fun ⟨_, _, ran, _⟩ => (nomatch ran)⟩
  · constructor
    · intro run
      exact ⟨found, between, rfl, run⟩
    · rintro ⟨_, _, ran, run⟩
      obtain ⟨same, rfl⟩ := Prod.mk.inj ran
      obtain rfl := Except.ok.inj same
      exact run

theorem bind_eq_error {f : α → Task β} : (task >>= f) session = (.error fault, after) ↔
    task session = (.error fault, after) ∨
      ∃ found between, task session = (.ok found, between) ∧ f found between = (.error fault, after) := by
  rw [bind_run]
  rcases task session with ⟨other | found, between⟩
  · constructor
    · intro failed
      cases failed
      exact .inl rfl
    · rintro (failed | ⟨_, _, same, _⟩)
      · cases failed
        rfl
      · cases same
  · constructor
    · intro run
      exact .inr ⟨found, between, rfl, run⟩
    · rintro (failed | ⟨_, _, same, run⟩)
      · cases failed
      · cases same
        exact run

theorem ofExcept_eq_ok {given : Except Fault α} {result : α} :
    ofExcept given session = (.ok result, after) ↔ given = .ok result ∧ after = session :=
  ⟨fun run => ⟨(Prod.mk.inj run).1, (Prod.mk.inj run).2.symm⟩, fun ⟨same, still⟩ => by rw [same, still]; rfl⟩

/-- What follows on a task matters only for the results that the task can have. -/
theorem bind_congr {f g : α → Task β}
    (same : ∀ session result after, task session = (.ok result, after) → f result = g result) :
    task >>= f = task >>= g := by
  funext session
  rw [bind_run, bind_run]
  rcases ran : task session with ⟨fault | result, after⟩
  · rfl
  · exact congrFun (same session result after ran) after

theorem get_eq_ok {found : Session} :
    (get : Task Session) session = (.ok found, after) ↔ found = session ∧ after = session := by
  constructor
  · intro run
    obtain ⟨same, rfl⟩ := Prod.mk.inj run
    exact ⟨(Except.ok.inj same).symm, rfl⟩
  · rintro ⟨rfl, rfl⟩
    rfl

/-- Reading leaves everything as it is. -/
theorem readFile_eq_ok {path : Path} {text : String} :
    readFile path session = (.ok text, after) ↔ session.files.read path = .ok text ∧ after = session := by
  rw [readFile, bind_eq_ok]
  constructor
  · rintro ⟨found, between, got, run⟩
    obtain ⟨rfl, rfl⟩ := get_eq_ok.mp got
    obtain ⟨read, still⟩ := ofExcept_eq_ok.mp run
    exact ⟨mapError_eq_ok.mp read, still⟩
  · rintro ⟨read, rfl⟩
    exact ⟨_, _, rfl, ofExcept_eq_ok.mpr ⟨mapError_eq_ok.mpr read, rfl⟩⟩

/-- What reading a file comes to: the file is there, its text is the text of a value, and the session stays as
it is. -/
theorem readJson_eq_ok {path : Path} {value : Json} : readJson path session = (.ok value, after) ↔
    ∃ text, session.files.read path = .ok text ∧ Json.read? text = some value ∧ after = session := by
  rw [readJson, bind_eq_ok]
  constructor
  · rintro ⟨text, between, read, run⟩
    obtain ⟨atPath, rfl⟩ := readFile_eq_ok.mp read
    cases found : Json.read? text with
    | none =>
      rw [found] at run
      cases run
    | some value' =>
      rw [found] at run
      obtain ⟨same, rfl⟩ := Prod.mk.inj run
      exact ⟨text, atPath, Except.ok.inj same ▸ found, rfl⟩
  · rintro ⟨text, atPath, found, rfl⟩
    refine ⟨text, _, readFile_eq_ok.mpr ⟨atPath, rfl⟩, ?_⟩
    rw [found]
    rfl

/-- The task leaves the files as they are, whether it fails or not. -/
def Quiet (task : Task α) : Prop := ∀ session, (task session).2.files = session.files

theorem Quiet.files {result : Except Fault α} (quiet : task.Quiet) (run : task session = (result, after)) :
    after.files = session.files := by
  rw [← quiet session, run]

theorem quiet_ofExcept (given : Except Fault α) : (ofExcept given).Quiet := fun _ => rfl

theorem quiet_pure (result : α) : (pure result : Task α).Quiet := fun _ => rfl

theorem quiet_log (line : String) : (log line).Quiet := fun _ => rfl

theorem Quiet.bind {f : α → Task β} (first : task.Quiet) (later : ∀ found, (f found).Quiet) :
    (task >>= f).Quiet := by
  intro session
  rw [bind_run]
  rcases ran : task session with ⟨_ | found, between⟩
  · exact first.files ran
  · exact (later found between).trans (first.files ran)

theorem quiet_readJson (path : Path) : (readJson path).Quiet := by
  have quiet : (readFile path).Quiet := Quiet.bind (fun _ => rfl) fun _ => quiet_ofExcept _
  refine quiet.bind fun text => ?_
  cases Json.read? text <;> exact fun _ => rfl

/-- A file is written as a whole, or nothing has happened. -/
theorem writeFile_run (path : Path) (text : String) : writeFile path text session =
    match session.files.write path text with
    | .ok files => (.ok (), { session with files })
    | .error why => (.error (.file why), session) := by
  rw [writeFile, bind_run]
  change (ofExcept ((session.files.write path text).mapError .file) >>= _) session = _
  rw [bind_run]
  cases session.files.write path text <;> rfl

/-- Writing leaves the text at the path and everything else as it was. -/
theorem writeFile_ok {path : Path} {text : String} {done : Unit}
    (run : writeFile path text session = (.ok done, after)) (other : Path) :
    after.files.find? other = if other = path then some (.file text) else session.files.find? other := by
  rw [writeFile_run] at run
  cases written : session.files.write path text with
  | error why =>
    rw [written] at run
    cases run
  | ok files =>
    rw [written] at run
    cases run
    exact FileTree.find?_write written other

end Task

end CircuitNames
