import CircuitNames.Proofs.Entities
import CircuitNames.Proofs.Lockstep
import CircuitNames.Proofs.ModuleOrder

namespace CircuitNames

namespace Stmt

variable {ε : Type} {f : Expr → Except ε Expr}

/-- A statement with other expressions of its own. -/
def withExprs : Stmt → List Expr → Stmt
  | reg name type _ none, [clock] => reg name type clock none
  | reg name type _ (some _), [clock, signal, init] => reg name type clock (some ⟨signal, init⟩)
  | node name _, [value] => node name value
  | connect _ _, [loc, expr] => connect loc expr
  | invalidate _, [expr] => invalidate expr
  | when _ body otherwise, [cond] => when cond body otherwise
  | stop _ _ exitCode, [clock, en] => stop clock en exitCode
  | print _ _ format _, clock :: en :: args => print clock en format args
  | stmt, _ => stmt

theorem mapOwnExprsM_eq {m : Type → Type} [Monad m] [LawfulMonad m] {f : Expr → m Expr} (stmt : Stmt) :
    stmt.mapOwnExprsM f = stmt.ownExprs.mapM f >>= fun exprs => pure (stmt.withExprs exprs) := by
  cases stmt with
  | reg name type clock reset => cases reset <;> simp [mapOwnExprsM, ownExprs, withExprs]
  | _ => simp [mapOwnExprsM, ownExprs, withExprs]

theorem frame_withExprs {stmt : Stmt} {exprs : List Expr} (same : exprs.length = stmt.ownExprs.length) :
    (stmt.withExprs exprs).frame = stmt.frame := by
  unfold withExprs
  split
  case h_8 clock en format args clock' en' args' =>
    have length : args'.length = args.length := by simpa [ownExprs] using same
    simp [frame, List.map_const', length]
  all_goals rfl

theorem frame_mapOwnExprsM {stmt result : Stmt} (run : stmt.mapOwnExprsM f = .ok result) :
    result.frame = stmt.frame := by
  rw [mapOwnExprsM_eq] at run
  obtain ⟨exprs, mapped, run⟩ := bind_eq_ok.mp run
  obtain rfl := Except.ok.inj run
  exact frame_withExprs (mapM_eq_ok.mp mapped).length_eq.symm

mutual

/-- Mapping expressions leaves the frames of all statements, whatever the expressions become. -/
theorem frames_mapExprsM : ∀ {stmt result : Stmt}, stmt.mapExprsM f = .ok result →
    result.walk.map frame = stmt.walk.map frame
  | when cond body otherwise, result, run => by
    rw [mapExprsM] at run
    obtain ⟨body', atBody, run⟩ := bind_eq_ok.mp run
    obtain ⟨otherwise', atOtherwise, run⟩ := bind_eq_ok.mp run
    have inBody := frames_mapExprsAllM atBody
    have inOtherwise := frames_mapExprsAllM atOtherwise
    rw [walk_eq, walk_eq, (mapOwnExprsM_eq_ok run).2, List.map_cons, List.map_cons, frame_mapOwnExprsM run]
    simp only [held, frame, List.map_append, inBody, inOtherwise]
  | block body, result, run => by
    rw [mapExprsM] at run
    obtain ⟨body', atBody, run⟩ := bind_eq_ok.mp run
    obtain rfl := Except.ok.inj run
    have inBody := frames_mapExprsAllM atBody
    simp only [walk, frame, List.map_cons, inBody]
  | wire .., result, run | reg .., result, run | node .., result, run | inst .., result, run
  | mem .., result, run | connect .., result, run | invalidate .., result, run | stop .., result, run
  | print .., result, run | skip, result, run => by
    simp only [mapExprsM] at run
    rw [walk_eq, walk_eq, (mapOwnExprsM_eq_ok run).2, List.map_cons, List.map_cons, frame_mapOwnExprsM run]

theorem frames_mapExprsAllM : ∀ {stmts results : List Stmt}, mapExprsAllM f stmts = .ok results →
    (walkAll results).map frame = (walkAll stmts).map frame
  | [], results, run => by
    obtain rfl := Except.ok.inj run
    rfl
  | stmt :: rest, results, run => by
    obtain ⟨first, atFirst, run⟩ := bind_eq_ok.mp run
    obtain ⟨later, atLater, run⟩ := bind_eq_ok.mp run
    obtain rfl := Except.ok.inj run
    simp only [walkAll, List.map_append, frames_mapExprsM atFirst, frames_mapExprsAllM atLater]

end

mutual

/-- Mapping the expressions of a tree of statements fails where mapping the list of them does. -/
theorem mapExprsM_ends : ∀ stmt : Stmt, Alongside (fun _ _ => True) (stmt.mapExprsM f) (stmt.exprs.mapM f)
  | when cond body otherwise => by
    simp only [mapExprsM, exprs, List.mapM_append, mapOwnExprsM_eq, bind_assoc]
    refine (mapExprsAllM_ends body).bind fun _ _ _ => (mapExprsAllM_ends otherwise).bind fun _ _ _ => ?_
    refine (Alongside.refl (fun _ => rfl) _).bind fun _ _ _ => .ok trivial
  | block body => by
    simp only [mapExprsM, exprs]
    exact (mapExprsAllM_ends body).then_pure fun _ _ _ => trivial
  | wire .. | reg .. | node .. | inst .. | mem .. | connect .. | invalidate .. | stop ..
  | print .. | skip => by
    simp only [mapExprsM, exprs, mapOwnExprsM_eq]
    exact (Alongside.refl (R := fun _ _ => True) (fun _ => trivial) _).then_pure fun _ _ _ => trivial

theorem mapExprsAllM_ends : ∀ stmts : List Stmt,
    Alongside (fun _ _ => True) (mapExprsAllM f stmts) ((exprsAll stmts).mapM f)
  | [] => .ok trivial
  | stmt :: rest => by
    simp only [mapExprsAllM, exprsAll, List.mapM_append]
    exact (mapExprsM_ends stmt).bind fun _ _ _ => (mapExprsAllM_ends rest).bind fun _ _ _ => .ok trivial

end

end Stmt

namespace Lockstep

variable {admits : String → Prop} {plan other : Plan} (pair : Lockstep admits plan other)

/-- What becomes of a port in both runs. -/
structure BecamePort (home : ModuleTarget) (port one two : Port) : Prop where
  name : pair.given (.reference (home.reference port.name)) one.name two.name
  rest : one = { port with name := one.name } ∧ two = { port with name := two.name }

/-- A module whose declarations have got their names. -/
structure NamedModule (main : String) (module one two : RegularModule) : Prop where
  name : pair.given (.module ⟨main, module.name⟩) one.name two.name
  ports : Forall₃ (pair.BecamePort ⟨main, module.name⟩) module.ports one.ports two.ports
  body : pair.Named ⟨main, module.name⟩ module.body one.body two.body

/-- A module whose uses have followed as well. -/
structure BecameModule (main : String) (module one two : RegularModule) : Prop where
  name : pair.given (.module ⟨main, module.name⟩) one.name two.name
  ports : Forall₃ (pair.BecamePort ⟨main, module.name⟩) module.ports one.ports two.ports
  statements : Forall₃ (pair.Became pair.used ⟨main, module.name⟩) module.statements
    one.statements two.statements

/-- What becomes of a module in both runs. -/
inductive Followed (main : String) : Module → Module → Module → Prop
  | regular {module one two : RegularModule} (became : pair.BecameModule main module one two) :
      Followed main (.regular module) (.regular one) (.regular two)
  | external {module : ExternalModule} {one two : String}
      (named : pair.given (.module ⟨main, module.name⟩) one two) :
      Followed main (.external module) (.external { module with name := one })
        (.external { module with name := two })

/-- A statement that has got its names becomes what its expressions make of it. -/
theorem Became.follow {pair : Lockstep admits plan other} {home : ModuleTarget}
    {f g : Expr → Except Fault Expr} {stmt one two first second : Stmt}
    (became : pair.Became Kept home stmt one two) (mapped : one.MapsTo f first)
    (alsoMapped : two.MapsTo g second) (frames : first.frame = one.frame ∧ second.frame = two.frame)
    (each : ∀ expr ∈ stmt.ownExprs, Alongside (pair.used expr) (f expr) (g expr)) :
    pair.Became pair.used home stmt first second := by
  obtain ⟨sameOne, sameTwo⟩ := kept_eq became.exprs
  have firsts := mapped.2
  have seconds := alsoMapped.2
  rw [sameOne] at firsts
  rw [sameTwo] at seconds
  refine ⟨⟨frames.1.trans became.frames.1, frames.2.trans became.frames.2⟩, ?_,
    Alongside.forall₃ each firsts seconds⟩
  rw [mapped.1, alsoMapped.1]
  exact became.declared

theorem Became.follow_all {pair : Lockstep admits plan other} {home : ModuleTarget}
    {f g : Expr → Except Fault Expr} {stmts ones twos firsts seconds : List Stmt}
    (became : Forall₃ (pair.Became Kept home) stmts ones twos)
    (mapped : List.Forall₂ (Stmt.MapsTo f) ones firsts)
    (alsoMapped : List.Forall₂ (Stmt.MapsTo g) twos seconds) (frames : firsts.map Stmt.frame =
      ones.map Stmt.frame) (alsoFrames : seconds.map Stmt.frame = twos.map Stmt.frame)
    (each : ∀ stmt ∈ stmts, ∀ expr ∈ stmt.ownExprs, Alongside (pair.used expr) (f expr) (g expr)) :
    Forall₃ (pair.Became pair.used home) stmts firsts seconds := by
  induction became generalizing firsts seconds with
  | nil =>
    cases mapped
    cases alsoMapped
    exact .nil
  | cons here _ ih =>
    cases mapped with
    | cons first later =>
      cases alsoMapped with
      | cons second latest =>
        obtain ⟨frame, frames⟩ := List.cons.inj frames
        obtain ⟨alsoFrame, alsoFrames⟩ := List.cons.inj alsoFrames
        obtain ⟨own, rest⟩ := List.forall_mem_cons.mp each
        exact .cons (here.follow first second ⟨frame, alsoFrame⟩ own) (ih later latest frames alsoFrames rest)

/-- Where statements have got their names, their expressions follow in lockstep. -/
theorem useStmts {home : ModuleTarget} (homeOk : (Target.module home).NamedBy admits) {s t : Sweep}
    (start : pair.together s t) {stmts ones twos : List Stmt}
    (clean : Stmt.NamedBy admits (Stmt.walkAll stmts)) (named : pair.Named home stmts ones twos) :
    Alongside (fun first second =>
        Forall₃ (pair.Became pair.used home) (Stmt.walkAll stmts) (Stmt.walkAll first) (Stmt.walkAll second))
      (Stmt.mapExprsAllM (s.useExpr home) ones) (Stmt.mapExprsAllM (t.useExpr home) twos) := by
  have each : ∀ stmt ∈ Stmt.walkAll stmts, ∀ expr ∈ stmt.ownExprs,
      Alongside (pair.used expr) (s.useExpr home expr) (t.useExpr home expr) := by
    intro stmt inside expr held
    refine pair.use homeOk (fun name holds => clean stmt inside name ?_) start
    exact List.mem_append_right _ (List.mem_flatMap.mpr ⟨expr, held, holds⟩)
  have between : Alongside (fun _ _ => True) ((Stmt.exprsAll stmts).mapM (s.useExpr home))
      ((Stmt.exprsAll stmts).mapM (t.useExpr home)) := by
    refine (Alongside.mapM (R := pair.used) fun expr inside => ?_).imp_ok fun _ _ _ _ _ => trivial
    obtain ⟨stmt, member, held⟩ := Stmt.mem_exprsAll inside
    exact each stmt member expr held
  have first := Stmt.mapExprsAllM_ends (f := s.useExpr home) ones
  have second := Stmt.mapExprsAllM_ends (f := t.useExpr home) twos
  rw [named.exprs.1] at first
  rw [named.exprs.2] at second
  refine ((first.trans between).trans second.symm).imp_ok fun firsts seconds mapped alsoMapped _ => ?_
  exact Became.follow_all named.each (Stmt.mapExprsAllM_eq_ok mapped) (Stmt.mapExprsAllM_eq_ok alsoMapped)
    (Stmt.frames_mapExprsAllM mapped) (Stmt.frames_mapExprsAllM alsoMapped) each

section Modules
variable {main : String} (mainOk : admits main) {s t : Sweep}
include mainOk

theorem declareModule {module : RegularModule}
    (names : ∀ name ∈ (Module.regular module).names, admits name) (start : pair.together s t) :
    Alongside (fun a b => pair.together a.2 b.2 ∧ ∃ one two : RegularModule, a.1 = .regular one ∧
      b.1 = .regular two ∧
        pair.NamedModule main module one two)
      (plan.declareModule main (.regular module) s) (other.declareModule main (.regular module) t) := by
  have homeOk : (Target.module ⟨main, module.name⟩).NamedBy admits := by
    simpa [Target.NamedBy, Target.names] using ⟨mainOk, names _ (Module.regular module).name_mem_names⟩
  obtain ⟨ofPorts, ofStatements⟩ := List.forall_mem_append.mp names
  obtain ⟨-, ofPorts⟩ := List.forall_mem_cons.mp ofPorts
  refine Alongside.bind_run (R := fun a b => pair.together a.2 b.2) (.ok (pair.openScope _ _ start)) ?_
  intro _ s _ t start
  refine Alongside.bind_run (R := fun a b => pair.together a.2 b.2 ∧ pair.given _ a.1 b.1)
    (.ok (pair.rename homeOk start)) ?_
  rintro one s two t ⟨start, named⟩
  refine Alongside.bind_run (R := fun a b => pair.together a.2 b.2 ∧
    Forall₃ (pair.BecamePort ⟨main, module.name⟩) module.ports a.1 b.1)
    (Alongside.mapM_run start fun port inside s t start => ?_) ?_
  · have nameOk := ofPorts port.name (List.mem_map_of_mem inside)
    refine (pair.declareLocal homeOk start nameOk).bind_run ?_
    rintro one s two t ⟨next, given⟩
    exact .ok ⟨next, given, rfl, rfl⟩
  rintro portsOne s portsTwo t ⟨start, ports⟩
  have clean : Stmt.NamedBy admits (Stmt.walkAll module.body) := fun stmt inside name holds =>
    ofStatements name (List.mem_flatMap.mpr ⟨stmt, inside, holds⟩)
  refine (pair.declareStmts homeOk start module.body clean).bind_run ?_
  rintro bodyOne s bodyTwo t ⟨start, body⟩
  exact .ok ⟨start, _, _, rfl, rfl, named, ports, body⟩

/-- What holds of single names holds of everything that a module declares, and of its uses. -/
theorem renameModule {module : Module} (names : ∀ name ∈ module.names, admits name)
    (start : pair.together s t) :
    Alongside (fun a b => pair.together a.2 b.2 ∧ pair.Followed main module a.1 b.1)
      (plan.renameModule main module s) (other.renameModule main module t) := by
  have homeOk : (Target.module ⟨main, module.name⟩).NamedBy admits := by
    simpa [Target.NamedBy, Target.names] using ⟨mainOk, names _ module.name_mem_names⟩
  cases module with
  | external module =>
    obtain ⟨next, named⟩ := pair.rename homeOk start
    exact .ok ⟨next, .external named⟩
  | regular module =>
    refine (pair.declareModule mainOk names start).bind ?_
    rintro ⟨_, s⟩ ⟨_, t⟩ ⟨start, one, two, rfl, rfl, named⟩
    have clean : Stmt.NamedBy admits (Stmt.walkAll module.body) := fun stmt inside name holds =>
      (List.forall_mem_append.mp names).2 name (List.mem_flatMap.mpr ⟨stmt, inside, holds⟩)
    have used := pair.useStmts homeOk start clean named.body
    refine Alongside.bind (R := pair.Followed main (.regular module)) ?_ fun a b followed =>
      .ok ⟨start, followed⟩
    exact used.bind fun first second statements => .ok (.regular ⟨named.name, named.ports, statements⟩)

/-- Modules in a row: the results stand side by side under the names the modules had. -/
theorem renameModules {modules : List Module}
    (names : ∀ module ∈ modules, ∀ name ∈ module.names, admits name) (start : pair.together s t)
    {done : List Module} {ones twos : List (String × Module)}
    (sofar : Forall₃ (fun module one two => one.1 = module.name ∧ two.1 = module.name ∧
      pair.Followed main module one.2 two.2) done ones twos) :
    Alongside (fun a b => pair.together a.2 b.2 ∧ Forall₃ (fun module one two => one.1 = module.name ∧
        two.1 = module.name ∧ pair.Followed main module one.2 two.2) (modules.reverse ++ done) a.1 b.1)
      (plan.renameModules main modules ones s) (other.renameModules main modules twos t) := by
  induction modules generalizing done ones twos s t with
  | nil => exact .ok ⟨start, sofar⟩
  | cons module rest ih =>
    obtain ⟨first, later⟩ := List.forall_mem_cons.mp names
    rw [List.reverse_cons, List.append_assoc]
    exact (pair.renameModule mainOk first start).bind fun (one, s) (two, t) ⟨next, followed⟩ =>
      ih later next (.cons ⟨rfl, rfl, followed⟩ sofar)

end Modules

/-- What becomes of a circuit in both runs. -/
structure BecameCircuit (circuit one two : Circuit) : Prop where
  main : pair.given (.circuit circuit.main) one.main two.main
  modules : Forall₃ (pair.Followed circuit.main) circuit.modules one.modules two.modules

/-- The results are found by the names of the modules, and each stands beside the other one. -/
theorem lookup_alongside {main : String} {order : List Module} {ones twos : List (String × Module)}
    (results : Forall₃ (fun module one two => one.1 = module.name ∧ two.1 = module.name ∧
      pair.Followed main module one.2 two.2) order ones twos)
    (distinct : (order.map Module.name).Nodup) {module : Module} (member : module ∈ order) :
    ∃ one two, ones.lookup module.name = some one ∧ twos.lookup module.name = some two ∧
      pair.Followed main module one two := by
  induction results with
  | nil => cases member
  | @cons head one two rest ones twos here _ ih =>
    obtain ⟨nameOne, one⟩ := one
    obtain ⟨nameTwo, two⟩ := two
    obtain ⟨rfl, rfl, followed⟩ := here
    rcases List.mem_cons.mp member with rfl | later
    · exact ⟨one, two, by simp, by simp, followed⟩
    · obtain ⟨fresh, others⟩ := List.nodup_cons.mp distinct
      have apart : (module.name == head.name) = false :=
        beq_false_of_ne fun same => fresh (same ▸ List.mem_map_of_mem later)
      simpa [List.lookup_cons, apart] using ih others later

/-- Two runs that start together end alike, and what is declared stands side by side in their results. -/
theorem renameCircuit {circuit : Circuit} (mainOk : admits circuit.main)
    (modulesOk : ∀ module ∈ circuit.modules, ∀ name ∈ module.names, admits name)
    (start : pair.together (.start circuit) (.start circuit)) :
    Alongside (fun a b => (∃ s t, pair.together s t ∧ a.2 = s.renames ∧ b.2 = t.renames) ∧
        pair.BecameCircuit circuit a.1 b.1)
      (plan.renameCircuit Circuit.leafToRoot circuit) (other.renameCircuit Circuit.leafToRoot circuit) := by
  have targetOk : (Target.circuit circuit.main).NamedBy admits := List.forall_mem_singleton.mpr mainOk
  obtain ⟨next, main⟩ := pair.rename targetOk start
  unfold Plan.renameCircuit
  cases ordered : circuit.leafToRoot with
  | error fault => exact .error fault
  | ok order =>
    have all := Circuit.leafToRoot_perm ordered
    have distinct := (Circuit.leafToRoot_spec ordered).2.2.1.nodup
    have names : ∀ module ∈ order, ∀ name ∈ module.names, admits name :=
      fun module inside => modulesOk module (all.mem_iff.mp inside)
    refine (pair.renameModules mainOk names next .nil).bind ?_
    rintro ⟨ones, s⟩ ⟨twos, t⟩ ⟨last, results⟩
    rw [List.append_nil] at results
    have reversed : (order.reverse.map Module.name).Nodup := by simpa [List.map_reverse] using distinct
    have found : ∀ module ∈ circuit.modules, ∃ one two, ones.lookup module.name = some one ∧
        twos.lookup module.name = some two ∧ pair.Followed circuit.main module one two :=
      fun module inside =>
        pair.lookup_alongside results reversed (List.mem_reverse.mpr (all.mem_iff.mpr inside))
    refine Alongside.bind (R := Forall₃ (pair.Followed circuit.main) circuit.modules) ?_
        fun first second modules =>
      .ok ⟨⟨s, t, last, rfl, rfl⟩, main, modules⟩
    refine Alongside.mapM fun module inside => ?_
    obtain ⟨one, two, atOne, atTwo, followed⟩ := found module inside
    rw [atOne, atTwo]
    exact .ok followed

/-- What is declared at a position is declared there in both results. -/
theorem BecameModule.declarationAt? {pair : Lockstep admits plan other} {main : String}
    {module one two : RegularModule} (became : pair.BecameModule main module one two) {spot : Spot}
    {declaration : Declaration} (atSpot : (Module.regular module).declarationAt? spot = some declaration) :
    ∃ first second, (Module.regular one).declarationAt? spot = some first ∧
      (Module.regular two).declarationAt? spot = some second ∧
      pair.Declared ⟨main, module.name⟩ declaration first second := by
  cases spot with
  | port index =>
    obtain ⟨port, atPort, rfl⟩ := Option.map_eq_some_iff.mp atSpot
    obtain ⟨first, second, atFirst, atSecond, here⟩ := became.ports.getElem? atPort
    exact ⟨_, _, Option.map_eq_some_iff.mpr ⟨first, atFirst, rfl⟩,
      Option.map_eq_some_iff.mpr ⟨second, atSecond, rfl⟩, .signal here.name⟩
  | stmt index =>
    obtain ⟨stmt, atStmt, declares⟩ := Option.bind_eq_some_iff.mp atSpot
    obtain ⟨first, second, atFirst, atSecond, here⟩ := became.statements.getElem? atStmt
    have declared := here.declared
    rw [declares] at declared
    cases ofFirst : first.declaration? with
    | none =>
      rw [ofFirst] at declared
      cases declared
    | some one =>
      cases ofSecond : second.declaration? with
      | none =>
        rw [ofFirst, ofSecond] at declared
        cases declared
      | some two =>
        rw [ofFirst, ofSecond] at declared
        cases declared with
        | cons related _ =>
          exact ⟨one, two, Option.bind_eq_some_iff.mpr ⟨first, atFirst, ofFirst⟩,
            Option.bind_eq_some_iff.mpr ⟨second, atSecond, ofSecond⟩, related⟩

/-- Everything declared stands in both results, and is called there what the runs gave it. -/
theorem BecameCircuit.nameAt? {pair : Lockstep admits plan other} {circuit one two : Circuit}
    (became : pair.BecameCircuit circuit one two) {entity : Entity} (inside : entity ∈ circuit.entities) :
    ∃ first second, one.nameAt? entity.place = some first ∧ two.nameAt? entity.place = some second ∧
      pair.given entity.target first second := by
  cases Circuit.mem_entities.mp inside with
  | circuit => exact ⟨_, _, rfl, rfl, became.main⟩
  | @module position module atHome =>
    obtain ⟨first, second, atFirst, atSecond, followed⟩ := became.modules.getElem? atHome
    simp only [Circuit.nameAt?, Circuit.addressAt?, atFirst, atSecond, Option.map_some]
    cases followed with
    | regular became => exact ⟨_, _, rfl, rfl, became.name⟩
    | external named => exact ⟨_, _, rfl, rfl, named⟩
  | @declaration position module spot declaration atHome atSpot =>
    obtain ⟨first, second, atFirst, atSecond, followed⟩ := became.modules.getElem? atHome
    cases followed with
    | regular became =>
      obtain ⟨one, two, atOne, atTwo, declared⟩ := became.declarationAt? atSpot
      simp only [Circuit.nameAt?, Circuit.addressAt?, atFirst, atSecond, Option.bind_some, atOne, atTwo,
        Option.map_some]
      cases declared with
      | signal named => exact ⟨_, _, rfl, rfl, named⟩
      | inst named _ => exact ⟨_, _, rfl, rfl, named⟩
      | mem named _ => exact ⟨_, _, rfl, rfl, named⟩
  | @memoryPort position module spot decl role index port atHome atSpot atPort =>
    obtain ⟨first, second, atFirst, atSecond, followed⟩ := became.modules.getElem? atHome
    cases followed with
    | regular became =>
      obtain ⟨one, two, atOne, atTwo, declared⟩ := became.declarationAt? atSpot
      cases declared with
      | mem named ports =>
        obtain ⟨portOne, portTwo, atPortOne, atPortTwo, given⟩ := (ports role).getElem? atPort
        simp only [Circuit.nameAt?, Circuit.addressAt?, atFirst, atSecond, Option.bind_some, atOne, atTwo,
          Declaration.portAt?, atPortOne, atPortTwo, Option.map_some]
        exact ⟨_, _, rfl, rfl, given⟩

end Lockstep

end CircuitNames
