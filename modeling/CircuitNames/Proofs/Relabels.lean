import CircuitNames.Proofs.LockstepRuns
import CircuitNames.Proofs.PassRun

namespace CircuitNames

namespace Expr

section Uses
variable (map : Expr → Expr)

mutual

/-- An expression with the uses of names in it mapped. A field is a use together with what it is selected
from. -/
def mapUses : Expr → Expr
  | ref name => map (ref name)
  | subfield base name => map (subfield base name)
  | prim op args consts => prim op (mapUsesAll args) consts
  | mux cond whenTrue whenFalse => mux (mapUses cond) (mapUses whenTrue) (mapUses whenFalse)
  | validIf cond value => validIf (mapUses cond) (mapUses value)
  | literal => literal

def mapUsesAll : List Expr → List Expr
  | [] => []
  | expr :: rest => mapUses expr :: mapUsesAll rest

end

end Uses

mutual

theorem mapUses_id : ∀ expr : Expr, expr.mapUses id = expr
  | ref _ | subfield _ _ | uintLit .. | sintLit .. => rfl
  | prim op args consts => by rw [mapUses, mapUsesAll_id args]
  | mux cond whenTrue whenFalse => by rw [mapUses, mapUses_id cond, mapUses_id whenTrue, mapUses_id whenFalse]
  | validIf cond value => by rw [mapUses, mapUses_id cond, mapUses_id value]

theorem mapUsesAll_id : ∀ exprs : List Expr, mapUsesAll id exprs = exprs
  | [] => rfl
  | expr :: rest => by rw [mapUsesAll, mapUses_id expr, mapUsesAll_id rest]

end

end Expr

mutual

/-- Where uses are followed to uses that look the same, expressions are followed to expressions that look the
same. -/
theorem Sweep.useExpr_mapUses {sweep : Sweep} {home : ModuleTarget} {map : Expr → Expr}
    (names : ∀ {name name' : String}, sweep.useName home name = .ok name' →
      map (.ref name') = map (.ref name))
    (fields : ∀ {base field result}, sweep.useField home base field = .ok result →
      map result = map (.subfield base field)) :
    ∀ {expr result : Expr}, sweep.useExpr home expr = .ok result → result.mapUses map = expr.mapUses map
  | .ref name, result, run => by
    obtain ⟨name', named, same⟩ := bind_eq_ok.mp run
    obtain rfl := Except.ok.inj same
    exact names named
  | .subfield base field, result, run => by
    obtain ⟨base', field', rfl⟩ := useField_eq_ok run
    exact fields run
  | .uintLit .., result, run | .sintLit .., result, run => by
    obtain rfl := Except.ok.inj run
    rfl
  | .prim op args consts, result, run => by
    obtain ⟨args', atArgs, same⟩ := bind_eq_ok.mp run
    obtain rfl := Except.ok.inj same
    rw [Expr.mapUses, Expr.mapUses, useExprs_mapUses names fields atArgs]
  | .mux cond whenTrue whenFalse, result, run => by
    obtain ⟨cond', atCond, run⟩ := bind_eq_ok.mp run
    obtain ⟨true', atTrue, run⟩ := bind_eq_ok.mp run
    obtain ⟨false', atFalse, same⟩ := bind_eq_ok.mp run
    obtain rfl := Except.ok.inj same
    rw [Expr.mapUses, Expr.mapUses, useExpr_mapUses names fields atCond, useExpr_mapUses names fields atTrue,
      useExpr_mapUses names fields atFalse]
  | .validIf cond value, result, run => by
    obtain ⟨cond', atCond, run⟩ := bind_eq_ok.mp run
    obtain ⟨value', atValue, same⟩ := bind_eq_ok.mp run
    obtain rfl := Except.ok.inj same
    rw [Expr.mapUses, Expr.mapUses, useExpr_mapUses names fields atCond, useExpr_mapUses names fields atValue]

theorem Sweep.useExprs_mapUses {sweep : Sweep} {home : ModuleTarget} {map : Expr → Expr}
    (names : ∀ {name name' : String}, sweep.useName home name = .ok name' →
      map (.ref name') = map (.ref name))
    (fields : ∀ {base field result}, sweep.useField home base field = .ok result →
      map result = map (.subfield base field)) :
    ∀ {exprs results : List Expr}, sweep.useExprs home exprs = .ok results →
      Expr.mapUsesAll map results = Expr.mapUsesAll map exprs
  | [], results, run => by
    obtain rfl := Except.ok.inj run
    rfl
  | expr :: rest, results, run => by
    obtain ⟨first, atFirst, run⟩ := bind_eq_ok.mp run
    obtain ⟨later, atLater, same⟩ := bind_eq_ok.mp run
    obtain rfl := Except.ok.inj same
    rw [Expr.mapUsesAll, Expr.mapUsesAll, useExpr_mapUses names fields atFirst,
      useExprs_mapUses names fields atLater]

end

namespace Stmt

section Maps
variable (name callee : String → String) (expr : Expr → Expr)

mutual

/-- A tree of statements with its names, the modules of its instances and its expressions mapped. -/
def relabel : Stmt → Stmt
  | wire own type => wire (name own) type
  | reg own type clock reset =>
    reg (name own) type (expr clock) (reset.map fun reset => ⟨expr reset.signal, expr reset.init⟩)
  | node own value => node (name own) (expr value)
  | inst own module => inst (name own) (callee module)
  | mem decl =>
    mem { decl with
      name := name decl.name
      readers := decl.readers.map name
      writers := decl.writers.map name
      readwriters := decl.readwriters.map name }
  | connect loc value => connect (expr loc) (expr value)
  | invalidate target => invalidate (expr target)
  | when cond body otherwise => when (expr cond) (relabelAll body) (relabelAll otherwise)
  | block body => block (relabelAll body)
  | stop clock en exitCode => stop (expr clock) (expr en) exitCode
  | print clock en format args => print (expr clock) (expr en) format (args.map expr)
  | skip => skip

def relabelAll : List Stmt → List Stmt
  | [] => []
  | stmt :: rest => relabel stmt :: relabelAll rest

end

mutual

/-- The parts of a relabelled statement are the parts, relabelled. -/
theorem walk_relabel :
    ∀ stmt : Stmt, (stmt.relabel name callee expr).walk = stmt.walk.map (relabel name callee expr)
  | when cond body otherwise => by
    simp only [relabel, walk, List.map_cons, List.map_append, walkAll_relabelAll body,
      walkAll_relabelAll otherwise]
  | block body => by
    simp only [relabel, walk, List.map_cons, walkAll_relabelAll body]
  | wire .. | reg .. | node .. | inst .. | mem .. | connect .. | invalidate .. | stop ..
  | print .. | skip => by
    simp only [relabel, walk, List.map_cons, List.map_nil]

theorem walkAll_relabelAll : ∀ stmts : List Stmt,
    walkAll (relabelAll name callee expr stmts) = (walkAll stmts).map (relabel name callee expr)
  | [] => rfl
  | stmt :: rest => by
    simp only [relabelAll, walkAll, List.map_append, walk_relabel stmt, walkAll_relabelAll rest]

end

theorem ownExprs_relabel (stmt : Stmt) :
    (stmt.relabel name callee expr).ownExprs = stmt.ownExprs.map expr := by
  cases stmt with
  | reg own type clock reset => cases reset <;> rfl
  | _ => rfl

end Maps

mutual

theorem relabel_id : ∀ stmt : Stmt, stmt.relabel id id id = stmt
  | when cond body otherwise => by simp only [relabel, id, relabelAll_id body, relabelAll_id otherwise]
  | block body => by simp only [relabel, relabelAll_id body]
  | reg own type clock none | reg own type clock (some reset) | wire .. | node .. | inst .. | connect ..
  | invalidate .. | stop .. | skip => rfl
  | mem decl => by simp only [relabel, id, List.map_id]
  | print clock en format args => by simp only [relabel, id, List.map_id]

theorem relabelAll_id : ∀ stmts : List Stmt, relabelAll id id id stmts = stmts
  | [] => rfl
  | stmt :: rest => by simp only [relabelAll, relabel_id stmt, relabelAll_id rest]

end

variable {name callee : String → String} {expr : Expr → Expr} {f : Expr → Except Fault Expr}

theorem relabel_withExprs {stmt : Stmt} {exprs : List Expr} (same : exprs.map expr = stmt.ownExprs.map expr) :
    (stmt.withExprs exprs).relabel name callee expr = stmt.relabel name callee expr := by
  unfold withExprs
  split <;> simp_all [ownExprs, relabel]

theorem mapOwnExprsM_relabel (keeps : ∀ {own mapped : Expr}, f own = .ok mapped → expr mapped = expr own)
    {stmt result : Stmt} (run : stmt.mapOwnExprsM f = .ok result) :
    result.relabel name callee expr = stmt.relabel name callee expr := by
  rw [mapOwnExprsM_eq] at run
  obtain ⟨exprs, mapped, run⟩ := bind_eq_ok.mp run
  obtain rfl := Except.ok.inj run
  exact relabel_withExprs (map_eq_of_forall₂ ((mapM_eq_ok.mp mapped).imp fun _ _ => keeps))

mutual

/-- Mapping the expressions of statements to others that look the same leaves statements that look the
same. -/
theorem mapExprsM_relabel (keeps : ∀ {own mapped : Expr}, f own = .ok mapped → expr mapped = expr own) :
    ∀ {stmt result : Stmt}, stmt.mapExprsM f = .ok result →
    result.relabel name callee expr = stmt.relabel name callee expr
  | when cond body otherwise, result, run => by
    rw [mapExprsM] at run
    obtain ⟨body', atBody, run⟩ := bind_eq_ok.mp run
    obtain ⟨otherwise', atOtherwise, run⟩ := bind_eq_ok.mp run
    rw [mapOwnExprsM_relabel keeps run, relabel, relabel, mapExprsAllM_relabel keeps atBody,
      mapExprsAllM_relabel keeps atOtherwise]
  | block body, result, run => by
    rw [mapExprsM] at run
    obtain ⟨body', atBody, run⟩ := bind_eq_ok.mp run
    obtain rfl := Except.ok.inj run
    rw [relabel, relabel, mapExprsAllM_relabel keeps atBody]
  | wire .., result, run | reg .., result, run | node .., result, run | inst .., result, run
  | mem .., result, run | connect .., result, run | invalidate .., result, run | stop .., result, run
  | print .., result, run | skip, result, run => by
    simp only [mapExprsM] at run
    exact mapOwnExprsM_relabel keeps run

theorem mapExprsAllM_relabel (keeps : ∀ {own mapped : Expr}, f own = .ok mapped → expr mapped = expr own) :
    ∀ {stmts results : List Stmt}, mapExprsAllM f stmts = .ok results →
    relabelAll name callee expr results = relabelAll name callee expr stmts
  | [], results, run => by
    obtain rfl := Except.ok.inj run
    rfl
  | stmt :: rest, results, run => by
    obtain ⟨first, atFirst, run⟩ := bind_eq_ok.mp run
    obtain ⟨later, atLater, run⟩ := bind_eq_ok.mp run
    obtain rfl := Except.ok.inj run
    rw [relabelAll, relabelAll, mapExprsM_relabel keeps atFirst, mapExprsAllM_relabel keeps atLater]

end

theorem withExprs_relabel (stmt : Stmt) (exprs : List Expr) :
    (stmt.relabel name callee id).withExprs exprs = (stmt.withExprs exprs).relabel name callee id := by
  cases stmt with
  | reg own type clock reset =>
    cases reset <;> rcases exprs with _ | ⟨_, _ | ⟨_, _ | ⟨_, _ | ⟨_, _⟩⟩⟩⟩ <;> rfl
  | print clock en format args =>
    rcases exprs with _ | ⟨_, _ | ⟨_, _⟩⟩ <;> simp [relabel, withExprs]
  | _ => rcases exprs with _ | ⟨_, _ | ⟨_, _ | ⟨_, _⟩⟩⟩ <;> rfl

theorem mapOwnExprsM_of_relabel (stmt : Stmt) :
    (stmt.relabel name callee id).mapOwnExprsM f = (stmt.mapOwnExprsM f).map (relabel name callee id) := by
  rw [mapOwnExprsM_eq, mapOwnExprsM_eq, ownExprs_relabel, List.map_id]
  simp only [withExprs_relabel]
  cases stmt.ownExprs.mapM f <;> rfl

mutual

/-- Mapping the expressions of statements does not depend on the names in them. -/
theorem mapExprsM_of_relabel : ∀ stmt : Stmt,
    (stmt.relabel name callee id).mapExprsM f = (stmt.mapExprsM f).map (relabel name callee id)
  | when cond body otherwise => by
    simp only [relabel, mapExprsM, mapExprsAllM_of_relabelAll body, mapExprsAllM_of_relabelAll otherwise]
    cases mapExprsAllM f body with
    | error fault => rfl
    | ok body' =>
      cases mapExprsAllM f otherwise with
      | error fault => rfl
      | ok otherwise' => exact mapOwnExprsM_of_relabel (when cond body' otherwise')
  | block body => by
    simp only [relabel, mapExprsM, mapExprsAllM_of_relabelAll body]
    cases mapExprsAllM f body <;> rfl
  | wire .. | inst .. | mem .. | skip => rfl
  | reg own type clock reset => mapOwnExprsM_of_relabel (reg own type clock reset)
  | node own value => mapOwnExprsM_of_relabel (node own value)
  | connect loc value => mapOwnExprsM_of_relabel (connect loc value)
  | invalidate target => mapOwnExprsM_of_relabel (invalidate target)
  | stop clock en exitCode => mapOwnExprsM_of_relabel (stop clock en exitCode)
  | print clock en format args => mapOwnExprsM_of_relabel (print clock en format args)

theorem mapExprsAllM_of_relabelAll : ∀ stmts : List Stmt,
    mapExprsAllM f (relabelAll name callee id stmts) = (mapExprsAllM f stmts).map (relabelAll name callee id)
  | [] => rfl
  | stmt :: rest => by
    simp only [relabelAll, mapExprsAllM, mapExprsM_of_relabel stmt, mapExprsAllM_of_relabelAll rest]
    cases stmt.mapExprsM f with
    | error fault => rfl
    | ok first => cases mapExprsAllM f rest <;> rfl

end

/-- Statements that differ in names alone hold the same expressions. -/
theorem ownExprs_of_relabelAll {ones twos : List Stmt}
    (same : relabelAll name callee id ones = relabelAll name callee id twos) :
    (walkAll ones).map ownExprs = (walkAll twos).map ownExprs := by
  have exprs (stmts : List Stmt) : (walkAll (relabelAll name callee id stmts)).map ownExprs =
      (walkAll stmts).map ownExprs := by
    rw [walkAll_relabelAll, List.map_map]
    exact List.map_congr_left fun stmt _ => (ownExprs_relabel name callee id stmt).trans (List.map_id _)
  rw [← exprs ones, same, exprs twos]

end Stmt

/-- A module with its names mapped as well. What an external module holds stays. -/
def Module.relabel (name callee : String → String) (expr : Expr → Expr) : Module → Module
  | .regular module => .regular {
      name := callee module.name
      ports := module.ports.map fun port => { port with name := name port.name }
      body := Stmt.relabelAll name callee expr module.body }
  | .external module => .external { module with name := callee module.name }

theorem Module.relabel_id (module : Module) : module.relabel id id id = module := by
  cases module with
  | external module => rfl
  | regular module =>
    have ports : (module.ports.map fun port => { port with name := id port.name }) = module.ports :=
      List.map_id'' (fun _ => rfl) _
    rw [relabel, ports, Stmt.relabelAll_id]
    rfl

/-- Every name is as good as any other. -/
def blank (_ : String) : String := ""

namespace Plan

variable {plan : Plan} {home : ModuleTarget} {sweep after : Sweep} {expr : Expr → Expr}

theorem declarePorts_blank {key : ScopeKey} {toTarget : String → Target} {ports results : List String}
    (run : (ports.mapM fun port => plan.declare key (toTarget port)) sweep = .ok (results, after)) :
    results.map blank = ports.map blank := by
  induction ports generalizing sweep results with
  | nil =>
    obtain ⟨rfl, -⟩ := run_pure_eq_ok.mp run
    rfl
  | cons port rest ih =>
    rw [List.mapM_cons] at run
    obtain ⟨first, _, -, run⟩ := run_bind_eq_ok.mp run
    obtain ⟨others, _, later, run⟩ := run_bind_eq_ok.mp run
    obtain ⟨rfl, rfl⟩ := run_pure_eq_ok.mp run
    rw [List.map_cons, List.map_cons, ih later]
    rfl

theorem declareMemory_blank {decl : MemDecl} {result : Stmt}
    (run : plan.declareMemory home decl sweep = .ok (result, after)) :
    result.relabel blank blank expr = (Stmt.mem decl).relabel blank blank expr := by
  obtain ⟨fresh, _, -, run⟩ := run_bind_eq_ok.mp run
  obtain ⟨_, _, -, run⟩ := run_bind_eq_ok.mp run
  obtain ⟨_, _, -, run⟩ := run_bind_eq_ok.mp run
  obtain ⟨readers, _, read, run⟩ := run_bind_eq_ok.mp run
  obtain ⟨writers, _, written, run⟩ := run_bind_eq_ok.mp run
  obtain ⟨readwriters, _, both, run⟩ := run_bind_eq_ok.mp run
  obtain ⟨rfl, -⟩ := run_pure_eq_ok.mp run
  simp only [Stmt.relabel, declarePorts_blank read, declarePorts_blank written, declarePorts_blank both]
  rfl

mutual

/-- What gets its names in a sweep is as it was but for the names. -/
theorem declareStmt_blank {sweep after : Sweep} {result : Stmt} : ∀ stmt : Stmt,
    plan.declareStmt home stmt sweep = .ok (result, after) →
    result.relabel blank blank expr = stmt.relabel blank blank expr
  | .wire name type, run | .reg name type clock reset, run | .node name value, run => by
    obtain ⟨fresh, _, -, run⟩ := run_bind_eq_ok.mp run
    obtain ⟨rfl, -⟩ := run_pure_eq_ok.mp run
    rfl
  | .inst name module, run => by
    obtain ⟨_, _, -, run⟩ := run_bind_eq_ok.mp run
    obtain ⟨callee, _, -, run⟩ := run_bind_eq_ok.mp run
    obtain ⟨fresh, _, -, run⟩ := run_bind_eq_ok.mp run
    obtain ⟨_, _, -, run⟩ := run_bind_eq_ok.mp run
    obtain ⟨rfl, -⟩ := run_pure_eq_ok.mp run
    rfl
  | .mem decl, run => declareMemory_blank run
  | .when cond body otherwise, run => by
    obtain ⟨_, _, first, run⟩ := run_bind_eq_ok.mp run
    obtain ⟨_, _, later, run⟩ := run_bind_eq_ok.mp run
    obtain ⟨rfl, -⟩ := run_pure_eq_ok.mp run
    rw [Stmt.relabel, Stmt.relabel, declareStmts_blank body first, declareStmts_blank otherwise later]
  | .block body, run => by
    obtain ⟨_, _, inside, run⟩ := run_bind_eq_ok.mp run
    obtain ⟨rfl, -⟩ := run_pure_eq_ok.mp run
    rw [Stmt.relabel, Stmt.relabel, declareStmts_blank body inside]
  | .connect .., run | .invalidate .., run | .stop .., run | .print .., run | .skip, run => by
    obtain ⟨rfl, -⟩ := run_pure_eq_ok.mp run
    rfl

theorem declareStmts_blank {sweep after : Sweep} {results : List Stmt} : ∀ stmts : List Stmt,
    plan.declareStmts home stmts sweep = .ok (results, after) →
    Stmt.relabelAll blank blank expr results = Stmt.relabelAll blank blank expr stmts
  | [], run => by
    obtain ⟨rfl, -⟩ := run_pure_eq_ok.mp run
    rfl
  | stmt :: rest, run => by
    obtain ⟨_, _, first, run⟩ := run_bind_eq_ok.mp run
    obtain ⟨_, _, later, run⟩ := run_bind_eq_ok.mp run
    obtain ⟨rfl, -⟩ := run_pure_eq_ok.mp run
    rw [Stmt.relabelAll, Stmt.relabelAll, declareStmt_blank stmt first, declareStmts_blank rest later]

end

theorem declareModulePorts_blank {ports results : List Port}
    (run : (ports.mapM fun port => do return { port with name := ← plan.declareLocal home port.name } :
      Sweeping (List Port)) sweep = .ok (results, after)) :
    (results.map fun port => { port with name := blank port.name }) =
      ports.map fun port => { port with name := blank port.name } := by
  induction ports generalizing sweep results with
  | nil =>
    obtain ⟨rfl, -⟩ := run_pure_eq_ok.mp run
    rfl
  | cons port rest ih =>
    rw [List.mapM_cons] at run
    obtain ⟨first, _, named, run⟩ := run_bind_eq_ok.mp run
    obtain ⟨fresh, _, -, built⟩ := run_bind_eq_ok.mp named
    obtain ⟨rfl, -⟩ := run_pure_eq_ok.mp built
    obtain ⟨others, _, later, run⟩ := run_bind_eq_ok.mp run
    obtain ⟨rfl, rfl⟩ := run_pure_eq_ok.mp run
    rw [List.map_cons, List.map_cons, ih later]
    rfl

theorem declareModule_blank {main : String} {module result : Module}
    (run : plan.declareModule main module sweep = .ok (result, after)) :
    result.relabel blank blank expr = module.relabel blank blank expr := by
  cases module with
  | external module =>
    obtain ⟨fresh, _, -, run⟩ := run_bind_eq_ok.mp run
    obtain ⟨rfl, -⟩ := run_pure_eq_ok.mp run
    rfl
  | regular module =>
    obtain ⟨_, _, -, run⟩ := run_bind_eq_ok.mp run
    obtain ⟨fresh, _, -, run⟩ := run_bind_eq_ok.mp run
    obtain ⟨ports, _, ofPorts, run⟩ := run_bind_eq_ok.mp run
    obtain ⟨body, _, ofBody, run⟩ := run_bind_eq_ok.mp run
    obtain ⟨rfl, -⟩ := run_pure_eq_ok.mp run
    simp only [Module.relabel, declareModulePorts_blank ofPorts, declareStmts_blank module.body ofBody]
    rfl

end Plan

theorem Sweep.useModule_relabel {sweep : Sweep} {home : ModuleTarget} {name callee : String → String}
    {expr : Expr → Expr} {module result : Module}
    (keeps : ∀ {own mapped : Expr}, sweep.useExpr home own = .ok mapped → expr mapped = expr own)
    (run : sweep.useModule home module = .ok result) :
    result.relabel name callee expr = module.relabel name callee expr := by
  cases module with
  | external module =>
    obtain rfl := Except.ok.inj run
    rfl
  | regular module =>
    obtain ⟨body, mapped, built⟩ := bind_eq_ok.mp run
    obtain rfl := Except.ok.inj built
    simp only [Module.relabel, Stmt.mapExprsAllM_relabel keeps mapped]

/-- How the uses in a module are followed does not depend on the names of what is declared in it. -/
theorem Sweep.useModule_of_relabel (sweep : Sweep) (home : ModuleTarget) (name callee : String → String)
    (module : Module) :
    sweep.useModule home (module.relabel name callee id) =
      (sweep.useModule home module).map (Module.relabel name callee id) := by
  cases module with
  | external module => rfl
  | regular module =>
    simp only [Module.relabel, useModule, Stmt.mapExprsAllM_of_relabelAll]
    cases Stmt.mapExprsAllM (sweep.useExpr home) module.body <;> rfl

end CircuitNames
