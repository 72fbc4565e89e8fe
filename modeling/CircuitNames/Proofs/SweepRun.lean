import CircuitNames.Proofs.SweepActions

namespace CircuitNames

namespace Plan

def act (plan : Plan) (sweep : Sweep) : Action → Sweep
  | .openScope key first => sweep.openScope key first
  | .declare key target => (plan.rename key target sweep).2
  | .consult _ => sweep
  | .bindInstance base target => sweep.bindInstance base target
  | .bindMemory base => sweep.bindMemory base

/-- Actions one after another. -/
def perform (plan : Plan) (actions : List Action) (sweep : Sweep) : Sweep := actions.foldl plan.act sweep

/-- A function gives the names of an action when a declaration gets its name there, or the module of an
instance is known by its name there. -/
def GivesOne (plan : Plan) (names : Target → String) (sweep : Sweep) : Action → Prop
  | .declare key target => (plan.rename key target sweep).1 = names target
  | .consult callee => sweep.nameOf callee.module (.module callee) = .ok (names (.module callee))
  | _ => True

/-- A function gives the names of a run of actions from a sweep on. -/
def Gives (plan : Plan) (names : Target → String) : List Action → Sweep → Prop
  | [], _ => True
  | action :: rest, sweep => plan.GivesOne names sweep action ∧ plan.Gives names rest (plan.act sweep action)

variable {plan : Plan} {names : Target → String} {home : ModuleTarget}

@[simp] theorem perform_nil (sweep : Sweep) : plan.perform [] sweep = sweep := rfl

@[simp] theorem perform_cons (action : Action) (rest : List Action) (sweep : Sweep) :
    plan.perform (action :: rest) sweep = plan.perform rest (plan.act sweep action) := rfl

theorem perform_append (first later : List Action) (sweep : Sweep) :
    plan.perform (first ++ later) sweep = plan.perform later (plan.perform first sweep) :=
  List.foldl_append

theorem gives_append {first later : List Action} {sweep : Sweep} :
    plan.Gives names (first ++ later) sweep ↔
      plan.Gives names first sweep ∧ plan.Gives names later (plan.perform first sweep) := by
  induction first generalizing sweep with
  | nil => simp [Gives]
  | cons action rest ih => simp only [List.cons_append, Gives, ih, perform_cons, and_assoc]

theorem declare_run {key : ScopeKey} {target : Target} {sweep : Sweep}
    (gives : plan.GivesOne names sweep (.declare key target)) :
    plan.declare key target sweep = .ok (names target, plan.act sweep (.declare key target)) :=
  congrArg (fun name => Except.ok (name, (plan.rename key target sweep).2)) gives

theorem declareInstance_run {name module : String} {sweep : Sweep}
    (gives : plan.Gives names ((Declaration.inst name module).actions home) sweep) :
    plan.declareInstance home name module sweep =
      .ok ((Stmt.inst name module).renamed names home,
        plan.perform ((Declaration.inst name module).actions home) sweep) := by
  obtain ⟨consulted, declared, -⟩ := gives
  refine run_bind_eq_ok.mpr ⟨sweep, sweep, rfl, ?_⟩
  refine run_bind_eq_ok.mpr ⟨names (.module ⟨home.circuit, module⟩), sweep, ?_, ?_⟩
  · exact run_lift_eq_ok.mpr ⟨consulted, rfl⟩
  refine run_bind_eq_ok.mpr ⟨_, _, declare_run declared, ?_⟩
  exact run_bind_eq_ok.mpr ⟨_, _, rfl, rfl⟩

theorem declarePorts_run {key : ScopeKey} {toTarget : String → Target} {ports : List String} {sweep : Sweep}
    (gives : plan.Gives names (ports.map fun port => .declare key (toTarget port)) sweep) :
    (ports.mapM fun port => plan.declare key (toTarget port)) sweep =
      .ok (ports.map fun port => names (toTarget port),
        plan.perform (ports.map fun port => .declare key (toTarget port)) sweep) := by
  induction ports generalizing sweep with
  | nil => rfl
  | cons port rest ih =>
    obtain ⟨first, later⟩ := gives
    rw [List.mapM_cons]
    exact run_bind_eq_ok.mpr ⟨_, _, declare_run first, run_bind_eq_ok.mpr ⟨_, _, ih later, rfl⟩⟩

/-- A memory is named in the module's scope, and its ports in their own. -/
theorem declareMemory_run {decl : MemDecl} {sweep : Sweep}
    (gives : plan.Gives names ((Declaration.mem decl).actions home) sweep) :
    plan.declareMemory home decl sweep =
      .ok ((Stmt.mem decl).renamed names home, plan.perform ((Declaration.mem decl).actions home) sweep) := by
  obtain ⟨own, -, -, ports⟩ := gives
  simp only [MemDecl.portNames, List.map_append, gives_append] at ports
  obtain ⟨⟨readers, writers⟩, readwriters⟩ := ports
  rw [perform_append] at readwriters
  refine run_bind_eq_ok.mpr ⟨_, _, declare_run own, ?_⟩
  refine run_bind_eq_ok.mpr ⟨_, _, rfl, ?_⟩
  refine run_bind_eq_ok.mpr ⟨_, _, rfl, ?_⟩
  refine run_bind_eq_ok.mpr ⟨_, _, declarePorts_run readers, ?_⟩
  refine run_bind_eq_ok.mpr ⟨_, _, declarePorts_run writers, ?_⟩
  refine run_bind_eq_ok.mpr ⟨_, _, declarePorts_run readwriters, ?_⟩
  refine run_pure_eq_ok.mpr ⟨rfl, ?_⟩
  simp only [Declaration.actions, MemDecl.portNames, List.map_append, perform_cons, perform_append]
  rfl

mutual

theorem declareStmt_run {sweep : Sweep} : ∀ stmt : Stmt,
    plan.Gives names (stmt.walk.flatMap (Stmt.actions home)) sweep →
    plan.declareStmt home stmt sweep =
      .ok (stmt.renamed names home, plan.perform (stmt.walk.flatMap (Stmt.actions home)) sweep)
  | .wire name type, gives | .reg name type clock reset, gives | .node name value, gives =>
    run_bind_eq_ok.mpr ⟨_, _, declare_run gives.1, rfl⟩
  | .inst name module, gives => by
    simp only [Stmt.walk, List.flatMap_cons, List.flatMap_nil, List.append_nil] at gives ⊢
    exact declareInstance_run gives
  | .mem decl, gives => by
    simp only [Stmt.walk, List.flatMap_cons, List.flatMap_nil, List.append_nil] at gives ⊢
    exact declareMemory_run gives
  | .when cond body otherwise, gives => by
    simp only [Stmt.walk, List.flatMap_cons, List.flatMap_append] at gives ⊢
    obtain ⟨-, inBody, inOtherwise⟩ := gives_append.mp gives |>.imp_right gives_append.mp
    rw [perform_append, perform_append]
    exact run_bind_eq_ok.mpr ⟨_, _, declareStmts_run body inBody,
      run_bind_eq_ok.mpr ⟨_, _, declareStmts_run otherwise inOtherwise, rfl⟩⟩
  | .block body, gives => by
    simp only [Stmt.walk, List.flatMap_cons] at gives ⊢
    rw [perform_append]
    exact run_bind_eq_ok.mpr ⟨_, _, declareStmts_run body (gives_append.mp gives).2, rfl⟩
  | .connect .., _ | .invalidate .., _ | .stop .., _ | .print .., _ | .skip, _ => rfl

/-- A sweep over declarations that all get the names of one function gives the statements renamed by this
function, and leaves what its actions leave. -/
theorem declareStmts_run {sweep : Sweep} : ∀ stmts : List Stmt,
    plan.Gives names ((Stmt.walkAll stmts).flatMap (Stmt.actions home)) sweep →
    plan.declareStmts home stmts sweep =
      .ok (Stmt.renamedAll names home stmts,
        plan.perform ((Stmt.walkAll stmts).flatMap (Stmt.actions home)) sweep)
  | [], _ => rfl
  | stmt :: rest, gives => by
    simp only [Stmt.walkAll, List.flatMap_append] at gives ⊢
    obtain ⟨first, later⟩ := gives_append.mp gives
    rw [perform_append]
    exact run_bind_eq_ok.mpr ⟨_, _, declareStmt_run stmt first,
      run_bind_eq_ok.mpr ⟨_, _, declareStmts_run rest later, rfl⟩⟩

end

theorem declareModulePorts_run {ports : List Port} {sweep : Sweep}
    (gives : plan.Gives names
      (ports.map fun port => .declare (.inside home.text) (.reference (home.reference port.name))) sweep) :
    (ports.mapM fun port => do return { port with name := ← plan.declareLocal home port.name } :
        Sweeping (List Port)) sweep =
      .ok (ports.map fun port => { port with name := names (.reference (home.reference port.name)) },
        plan.perform (ports.map fun port =>
          .declare (.inside home.text) (.reference (home.reference port.name))) sweep) := by
  induction ports generalizing sweep with
  | nil => rfl
  | cons port rest ih =>
    obtain ⟨first, later⟩ := gives
    rw [List.mapM_cons]
    exact run_bind_eq_ok.mpr ⟨_, _, run_bind_eq_ok.mpr ⟨_, _, declare_run first, rfl⟩,
      run_bind_eq_ok.mpr ⟨_, _, ih later, rfl⟩⟩

/-- What becomes of a module is decided by the names alone that its declarations get. -/
theorem declareModule_run {circuit : String} {module : Module} {sweep : Sweep}
    (gives : plan.Gives names (module.actions circuit) sweep) :
    plan.declareModule circuit module sweep =
      .ok (module.renamed names circuit, plan.perform (module.actions circuit) sweep) := by
  cases module with
  | external module => exact run_bind_eq_ok.mpr ⟨_, _, declare_run gives.1, rfl⟩
  | regular module =>
    obtain ⟨-, own, inside⟩ := gives
    rw [RegularModule.flatMap_actions] at inside
    obtain ⟨ports, body⟩ := gives_append.mp inside
    refine run_bind_eq_ok.mpr ⟨_, _, rfl, run_bind_eq_ok.mpr ⟨_, _, declare_run own,
      run_bind_eq_ok.mpr ⟨_, _, declareModulePorts_run ports,
        run_bind_eq_ok.mpr ⟨_, _, declareStmts_run module.body body, ?_⟩⟩⟩⟩
    refine run_pure_eq_ok.mpr ⟨rfl, ?_⟩
    simp only [Module.actions, RegularModule.flatMap_actions, perform_cons, perform_append]
    rfl

theorem declare_after {key : ScopeKey} {target : Target} {sweep after : Sweep} {name : String}
    (run : plan.declare key target sweep = .ok (name, after)) :
    name = (plan.rename key target sweep).1 ∧ after = plan.act sweep (.declare key target) := by
  have same := Except.ok.inj run
  exact ⟨(congrArg Prod.fst same).symm, (congrArg Prod.snd same).symm⟩

theorem declareInstance_after {name module : String} {sweep after : Sweep} {result : Stmt}
    (run : plan.declareInstance home name module sweep = .ok (result, after)) :
    after = plan.perform ((Declaration.inst name module).actions home) sweep := by
  obtain ⟨_, _, got, run⟩ := run_bind_eq_ok.mp run
  cases got
  obtain ⟨callee, _, consulted, run⟩ := run_bind_eq_ok.mp run
  obtain ⟨-, rfl⟩ := run_lift_eq_ok.mp consulted
  obtain ⟨fresh, _, declared, run⟩ := run_bind_eq_ok.mp run
  obtain ⟨-, rfl⟩ := declare_after declared
  obtain ⟨_, _, bound, run⟩ := run_bind_eq_ok.mp run
  cases bound
  exact (run_pure_eq_ok.mp run).2

theorem declarePorts_after {key : ScopeKey} {toTarget : String → Target} {ports results : List String}
    {sweep after : Sweep}
    (run : (ports.mapM fun port => plan.declare key (toTarget port)) sweep = .ok (results, after)) :
    after = plan.perform (ports.map fun port => .declare key (toTarget port)) sweep := by
  induction ports generalizing sweep results with
  | nil => exact (run_pure_eq_ok.mp run).2
  | cons port rest ih =>
    rw [List.mapM_cons] at run
    obtain ⟨first, _, declared, run⟩ := run_bind_eq_ok.mp run
    obtain ⟨-, rfl⟩ := declare_after declared
    obtain ⟨others, _, later, run⟩ := run_bind_eq_ok.mp run
    obtain ⟨-, rfl⟩ := run_pure_eq_ok.mp run
    exact ih later

theorem declareMemory_after {decl : MemDecl} {sweep after : Sweep} {result : Stmt}
    (run : plan.declareMemory home decl sweep = .ok (result, after)) :
    after = plan.perform ((Declaration.mem decl).actions home) sweep := by
  obtain ⟨fresh, _, declared, run⟩ := run_bind_eq_ok.mp run
  obtain ⟨-, rfl⟩ := declare_after declared
  obtain ⟨_, _, opened, run⟩ := run_bind_eq_ok.mp run
  cases opened
  obtain ⟨_, _, bound, run⟩ := run_bind_eq_ok.mp run
  cases bound
  obtain ⟨readers, _, read, run⟩ := run_bind_eq_ok.mp run
  obtain ⟨writers, _, written, run⟩ := run_bind_eq_ok.mp run
  obtain ⟨readwriters, _, both, run⟩ := run_bind_eq_ok.mp run
  obtain ⟨-, rfl⟩ := run_pure_eq_ok.mp run
  obtain rfl := declarePorts_after read
  obtain rfl := declarePorts_after written
  obtain rfl := declarePorts_after both
  simp only [Declaration.actions, MemDecl.portNames, List.map_append, perform_cons, perform_append]
  rfl

mutual

theorem declareStmt_after {sweep after : Sweep} {result : Stmt} : ∀ stmt : Stmt,
    plan.declareStmt home stmt sweep = .ok (result, after) →
    after = plan.perform (stmt.walk.flatMap (Stmt.actions home)) sweep
  | .wire name type, run | .reg name type clock reset, run | .node name value, run => by
    obtain ⟨fresh, _, declared, run⟩ := run_bind_eq_ok.mp run
    obtain ⟨-, rfl⟩ := declare_after declared
    exact (run_pure_eq_ok.mp run).2
  | .inst name module, run => by
    simp only [Stmt.walk, List.flatMap_cons, List.flatMap_nil, List.append_nil]
    exact declareInstance_after run
  | .mem decl, run => by
    simp only [Stmt.walk, List.flatMap_cons, List.flatMap_nil, List.append_nil]
    exact declareMemory_after run
  | .when cond body otherwise, run => by
    obtain ⟨_, _, first, run⟩ := run_bind_eq_ok.mp run
    obtain ⟨_, _, later, run⟩ := run_bind_eq_ok.mp run
    obtain ⟨-, rfl⟩ := run_pure_eq_ok.mp run
    obtain rfl := declareStmts_after body first
    obtain rfl := declareStmts_after otherwise later
    simp only [Stmt.walk, List.flatMap_cons, List.flatMap_append, perform_append]
    rfl
  | .block body, run => by
    obtain ⟨_, _, inside, run⟩ := run_bind_eq_ok.mp run
    obtain ⟨-, rfl⟩ := run_pure_eq_ok.mp run
    obtain rfl := declareStmts_after body inside
    simp only [Stmt.walk, List.flatMap_cons, perform_append]
    rfl
  | .connect .., run | .invalidate .., run | .stop .., run | .print .., run | .skip, run =>
    (run_pure_eq_ok.mp run).2

theorem declareStmts_after {sweep after : Sweep} {results : List Stmt} : ∀ stmts : List Stmt,
    plan.declareStmts home stmts sweep = .ok (results, after) →
    after = plan.perform ((Stmt.walkAll stmts).flatMap (Stmt.actions home)) sweep
  | [], run => (run_pure_eq_ok.mp run).2
  | stmt :: rest, run => by
    obtain ⟨_, _, first, run⟩ := run_bind_eq_ok.mp run
    obtain ⟨_, _, later, run⟩ := run_bind_eq_ok.mp run
    obtain ⟨-, rfl⟩ := run_pure_eq_ok.mp run
    obtain rfl := declareStmt_after stmt first
    obtain rfl := declareStmts_after rest later
    simp only [Stmt.walkAll, List.flatMap_append, perform_append]

end

theorem declareModulePorts_after {ports results : List Port} {sweep after : Sweep}
    (run : (ports.mapM fun port => do return { port with name := ← plan.declareLocal home port.name } :
      Sweeping (List Port)) sweep = .ok (results, after)) :
    after = plan.perform
      (ports.map fun port => .declare (.inside home.text) (.reference (home.reference port.name))) sweep := by
  induction ports generalizing sweep results with
  | nil => exact (run_pure_eq_ok.mp run).2
  | cons port rest ih =>
    rw [List.mapM_cons] at run
    obtain ⟨first, _, named, run⟩ := run_bind_eq_ok.mp run
    obtain ⟨fresh, _, declared, built⟩ := run_bind_eq_ok.mp named
    obtain ⟨-, rfl⟩ := declare_after declared
    obtain ⟨-, rfl⟩ := run_pure_eq_ok.mp built
    obtain ⟨others, _, later, run⟩ := run_bind_eq_ok.mp run
    obtain ⟨-, rfl⟩ := run_pure_eq_ok.mp run
    exact ih later

/-- Where names coincide no function need give them all, but a sweep still leaves what its actions leave. -/
theorem declareModule_after {circuit : String} {module result : Module} {sweep after : Sweep}
    (run : plan.declareModule circuit module sweep = .ok (result, after)) :
    after = plan.perform (module.actions circuit) sweep := by
  cases module with
  | external module =>
    obtain ⟨fresh, _, declared, run⟩ := run_bind_eq_ok.mp run
    obtain ⟨-, rfl⟩ := declare_after declared
    exact (run_pure_eq_ok.mp run).2
  | regular module =>
    obtain ⟨_, _, opened, run⟩ := run_bind_eq_ok.mp run
    cases opened
    obtain ⟨fresh, _, declared, run⟩ := run_bind_eq_ok.mp run
    obtain ⟨-, rfl⟩ := declare_after declared
    obtain ⟨_, _, ports, run⟩ := run_bind_eq_ok.mp run
    obtain ⟨_, _, body, run⟩ := run_bind_eq_ok.mp run
    obtain ⟨-, rfl⟩ := run_pure_eq_ok.mp run
    obtain rfl := declareModulePorts_after ports
    obtain rfl := declareStmts_after module.body body
    simp only [Module.actions, RegularModule.flatMap_actions, perform_cons, perform_append]
    rfl

end Plan

end CircuitNames
