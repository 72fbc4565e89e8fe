import CircuitNames.Proofs.Alongside
import CircuitNames.Proofs.DeclaredTargets
import CircuitNames.Proofs.DecodedCircuits
import CircuitNames.Proofs.Designation
import CircuitNames.Proofs.MappedStatements
import CircuitNames.Rename.Pass

namespace CircuitNames

/-- The scope in which the name of a declaration is given. -/
def Target.scope : Target → ScopeKey
  | .circuit _ => .circuit
  | .module _ => .modules
  | .inst target => .inside (ModuleTarget.mk target.circuit target.module).text
  | .reference target =>
    match target.fields with
    | [] => .inside (ModuleTarget.mk target.circuit target.module).text
    | _ :: _ => .inside (ReferenceTarget.mk target.circuit target.module target.path target.ref []).text

/-- Every name of the target is one of those admitted. -/
def Target.NamedBy (admits : String → Prop) (target : Target) : Prop := ∀ name ∈ target.names, admits name

def Expr.NamedBy (admits : String → Prop) (expr : Expr) : Prop := ∀ name ∈ expr.names, admits name

/-- Every name in the statements is one of those admitted. -/
def Stmt.NamedBy (admits : String → Prop) (stmts : List Stmt) :
    Prop := ∀ stmt ∈ stmts, ∀ name ∈ stmt.names, admits name

/-- Two plans whose sweeps stay together on the names that are admitted: what relates the sweeps, the names
they give to a target, the names they answer for a module, and what they make of an expression. -/
structure Lockstep (admits : String → Prop) (plan other : Plan) where
  together : Sweep → Sweep → Prop
  given : Target → String → String → Prop
  asked : String → String → Prop
  used : Expr → Expr → Expr → Prop
  rename : ∀ {target : Target} {s t : Sweep}, target.NamedBy admits → together s t →
    together (plan.rename target.scope target s).2 (other.rename target.scope target t).2 ∧
      given target (plan.rename target.scope target s).1 (other.rename target.scope target t).1
  openScope : ∀ {s t : Sweep} (key : ScopeKey) (first : Scope), together s t →
    together (s.openScope key first) (t.openScope key first)
  bindInstance : ∀ {s t : Sweep} (base : ReferenceTarget) {target : InstanceTarget},
    (Target.inst target).NamedBy admits →
    together s t → together (s.bindInstance base target) (t.bindInstance base target)
  bindMemory : ∀ {s t : Sweep} {base : ReferenceTarget},
    (Target.reference base).NamedBy admits → together s t → together (s.bindMemory base) (t.bindMemory base)
  consult : ∀ {callee : ModuleTarget} {s t : Sweep}, (Target.module callee).NamedBy admits → together s t →
    Alongside asked (s.nameOf callee.module (.module callee)) (t.nameOf callee.module (.module callee))
  use : ∀ {home : ModuleTarget} {expr : Expr} {s t : Sweep}, (Target.module home).NamedBy admits →
    expr.NamedBy admits → together s t → Alongside (used expr) (s.useExpr home expr) (t.useExpr home expr)

namespace Stmt

/-- What is left of a statement without names, expressions and the statements it holds. -/
def frame : Stmt → Stmt
  | wire _ type => wire "" type
  | reg _ type _ reset => reg "" type default (reset.map fun _ => ⟨default, default⟩)
  | node _ _ => node "" default
  | inst _ _ => inst "" ""
  | mem decl => mem { decl with name := "", readers := [], writers := [], readwriters := [] }
  | connect _ _ => connect default default
  | invalidate _ => invalidate default
  | when _ _ _ => when default [] []
  | block _ => block []
  | stop _ _ exitCode => stop default default exitCode
  | print _ _ format args => print default default format (args.map fun _ => default)
  | skip => skip

mutual

/-- The expressions of a tree of statements in the order in which they are mapped. -/
def exprs : Stmt → List Expr
  | when cond body otherwise => exprsAll body ++ exprsAll otherwise ++ [cond]
  | block body => exprsAll body
  | stmt => stmt.ownExprs

def exprsAll : List Stmt → List Expr
  | [] => []
  | stmt :: rest => exprs stmt ++ exprsAll rest

end

variable {expr : Expr}

mutual

theorem mem_exprs : ∀ {stmt : Stmt}, expr ∈ stmt.exprs → ∃ part ∈ stmt.walk, expr ∈ part.ownExprs
  | when cond body otherwise, inside => by
    simp only [exprs, List.mem_append, List.mem_singleton] at inside
    simp only [walk, List.mem_cons, List.mem_append]
    rcases inside with (inBody | inOtherwise) | rfl
    · obtain ⟨part, member, held⟩ := mem_exprsAll inBody
      exact ⟨part, Or.inr (Or.inl member), held⟩
    · obtain ⟨part, member, held⟩ := mem_exprsAll inOtherwise
      exact ⟨part, Or.inr (Or.inr member), held⟩
    · exact ⟨_, Or.inl rfl, by simp [ownExprs]⟩
  | block body, inside => by
    obtain ⟨part, member, held⟩ := mem_exprsAll inside
    exact ⟨part, List.mem_cons_of_mem _ member, held⟩
  | wire .., inside | reg .., inside | node .., inside | inst .., inside | mem .., inside | connect .., inside
  | invalidate .., inside | stop .., inside | print .., inside | skip, inside =>
    ⟨_, List.mem_cons_self, inside⟩

theorem mem_exprsAll : ∀ {stmts : List Stmt}, expr ∈ exprsAll stmts →
    ∃ part ∈ walkAll stmts, expr ∈ part.ownExprs
  | stmt :: rest, inside => by
    rcases List.mem_append.mp inside with first | later
    · obtain ⟨part, member, held⟩ := mem_exprs first
      exact ⟨part, List.mem_append_left _ member, held⟩
    · obtain ⟨part, member, held⟩ := mem_exprsAll later
      exact ⟨part, List.mem_append_right _ member, held⟩

end

end Stmt

namespace Lockstep

variable {admits : String → Prop} {plan other : Plan} (pair : Lockstep admits plan other)

/-- What becomes of a declaration in both runs. -/
inductive Declared (home : ModuleTarget) : Declaration → Declaration → Declaration → Prop
  | signal {name one two : String} (named : pair.given (.reference (home.reference name)) one two) :
      Declared home (.signal name) (.signal one) (.signal two)
  | inst {name callee one two calleeOne calleeTwo : String}
      (named : pair.given (.inst (home.inst name callee)) one two)
      (instantiates : pair.asked calleeOne calleeTwo) :
      Declared home (.inst name callee) (.inst one calleeOne) (.inst two calleeTwo)
  | mem {decl one two : MemDecl}
      (named : pair.given (.reference (home.reference decl.name)) one.name two.name)
      (ports : ∀ role, Forall₃ (fun port => pair.given (.reference ((home.reference decl.name).field port)))
        (decl.portsIn role) (one.portsIn role) (two.portsIn role)) :
      Declared home (.mem decl) (.mem one) (.mem two)

/-- What becomes of a statement in both runs, its expressions being related in some way. -/
structure Became (used : Expr → Expr → Expr → Prop) (home : ModuleTarget) (stmt one two : Stmt) : Prop where
  frames : one.frame = stmt.frame ∧ two.frame = stmt.frame
  declared : Forall₃ (pair.Declared home) stmt.declaration?.toList one.declaration?.toList
    two.declaration?.toList
  exprs : Forall₃ used stmt.ownExprs one.ownExprs two.ownExprs

/-- The expressions stay while the declarations get their names. -/
def Kept (expr one two : Expr) : Prop := one = expr ∧ two = expr

theorem kept_refl (exprs : List Expr) : Forall₃ Kept exprs exprs exprs := by
  induction exprs with
  | nil => exact .nil
  | cons expr rest ih => exact .cons ⟨rfl, rfl⟩ ih

theorem kept_eq {exprs ones twos : List Expr} (kept : Forall₃ Kept exprs ones twos) :
    ones = exprs ∧ twos = exprs := by
  induction kept with
  | nil => exact ⟨rfl, rfl⟩
  | cons here _ ih => exact ⟨by rw [here.1, ih.1], by rw [here.2, ih.2]⟩

/-- What a tree of statements becomes while the declarations in it get their names. -/
structure Named (home : ModuleTarget) (stmts ones twos : List Stmt) : Prop where
  each : Forall₃ (pair.Became Kept home) (Stmt.walkAll stmts) (Stmt.walkAll ones) (Stmt.walkAll twos)
  exprs : Stmt.exprsAll ones = Stmt.exprsAll stmts ∧ Stmt.exprsAll twos = Stmt.exprsAll stmts

namespace Named

variable {pair} {home : ModuleTarget} {stmt one two : Stmt} {stmts ones twos : List Stmt}

theorem nil : pair.Named home [] [] [] := ⟨.nil, rfl, rfl⟩

theorem cons (first : pair.Named home [stmt] [one] [two]) (rest : pair.Named home stmts ones twos) :
    pair.Named home (stmt :: stmts) (one :: ones) (two :: twos) := by
  obtain ⟨firstEach, firstOne, firstTwo⟩ := first
  obtain ⟨restEach, restOne, restTwo⟩ := rest
  simp only [Stmt.exprsAll, Stmt.walkAll, List.append_nil] at firstEach firstOne firstTwo
  refine ⟨firstEach.append restEach, ?_, ?_⟩ <;> simp only [Stmt.exprsAll, *]

/-- Statements that hold no others. -/
theorem leaf (became : pair.Became Kept home stmt one two)
    (held : stmt.held = [] ∧ one.held = [] ∧ two.held = [])
    (exprs : stmt.exprs = stmt.ownExprs ∧ one.exprs = one.ownExprs ∧ two.exprs = two.ownExprs) :
    pair.Named home [stmt] [one] [two] := by
  have same := kept_eq became.exprs
  constructor
  · simp only [Stmt.walkAll, Stmt.walk_eq, held, List.append_nil]
    exact .cons became .nil
  · simp only [Stmt.exprsAll, exprs, same, List.append_nil, and_self]

theorem block (inside : pair.Named home stmts ones twos) :
    pair.Named home [.block stmts] [.block ones] [.block twos] := by
  constructor
  · simp only [Stmt.walkAll, Stmt.walk, List.append_nil]
    exact .cons ⟨⟨rfl, rfl⟩, .nil, .nil⟩ inside.each
  · simpa only [Stmt.exprsAll, Stmt.exprs, List.append_nil] using inside.exprs

theorem when {cond : Expr} {otherwise onesOtherwise twosOtherwise : List Stmt}
    (body : pair.Named home stmts ones twos) (rest : pair.Named home otherwise onesOtherwise twosOtherwise) :
    pair.Named home [.when cond stmts otherwise] [.when cond ones onesOtherwise]
      [.when cond twos twosOtherwise] := by
  constructor
  · simp only [Stmt.walkAll, Stmt.walk, List.append_nil]
    exact .cons ⟨⟨rfl, rfl⟩, .nil, kept_refl [cond]⟩ (body.each.append rest.each)
  · simp only [Stmt.exprsAll, Stmt.exprs, List.append_nil, body.exprs, rest.exprs, and_self]

end Named

section Declarations
variable {home : ModuleTarget} (homeOk : (Target.module home).NamedBy admits) {s t : Sweep}
  (start : pair.together s t)
include homeOk

theorem reference_named {name : String} (nameOk : admits name) :
    (Target.reference (home.reference name)).NamedBy admits := by
  have circuitOk := homeOk home.circuit (by simp [Target.names])
  have moduleOk := homeOk home.module (by simp [Target.names])
  simpa [Target.NamedBy, Target.names, ModuleTarget.reference] using ⟨circuitOk, moduleOk, nameOk⟩

include start

theorem declareLocal {name : String} (nameOk : admits name) :
    Alongside (fun a b => pair.together a.2 b.2 ∧ pair.given (.reference (home.reference name)) a.1 b.1)
      (plan.declareLocal home name s) (other.declareLocal home name t) :=
  .ok (pair.rename (reference_named homeOk nameOk) start)

theorem declareInstance {name module : String} (nameOk : admits name)
    (moduleOk : admits module) :
    Alongside (fun a b => pair.together a.2 b.2 ∧ pair.Named home [.inst name module] [a.1] [b.1])
      (plan.declareInstance home name module s) (other.declareInstance home name module t) := by
  have circuitOk := homeOk home.circuit (by simp [Target.names])
  have homeNameOk := homeOk home.module (by simp [Target.names])
  have calleeOk : (Target.module ⟨home.circuit, module⟩).NamedBy admits := by
    simpa [Target.NamedBy, Target.names] using ⟨circuitOk, moduleOk⟩
  have targetOk : (Target.inst (home.inst name module)).NamedBy admits := by
    simpa [Target.NamedBy, Target.names, ModuleTarget.inst] using ⟨circuitOk, homeNameOk, nameOk, moduleOk⟩
  refine Alongside.bind_run (R := fun a b => a = (s, s) ∧ b = (t, t)) (.ok ⟨rfl, rfl⟩) ?_
  rintro _ _ _ _ ⟨⟨⟩, ⟨⟩⟩
  refine (pair.consult calleeOk start).lift.bind_run ?_
  rintro calleeOne _ calleeTwo _ ⟨⟨rfl, rfl⟩, asked⟩
  obtain ⟨next, given⟩ := pair.rename targetOk start
  refine .ok ⟨pair.bindInstance _ targetOk next,
    .leaf ⟨⟨rfl, rfl⟩, .cons (.inst given asked) .nil, .nil⟩ ⟨rfl, rfl, rfl⟩ ⟨rfl, rfl, rfl⟩⟩

theorem declareMemory {decl : MemDecl} (names : ∀ name ∈ (Declaration.mem decl).names, admits name) :
    Alongside (fun a b => pair.together a.2 b.2 ∧ pair.Named home [.mem decl] [a.1] [b.1])
      (plan.declareMemory home decl s) (other.declareMemory home decl t) := by
  obtain ⟨nameOk, portsOk⟩ := List.forall_mem_cons.mp names
  have targets : ∀ target ∈ (Declaration.mem decl).targets home, target.NamedBy admits := by
    intro target inside name holds
    rcases Declaration.names_of_mem inside name holds with rfl | rfl | declared
    · exact homeOk home.circuit (by simp [Target.names])
    · exact homeOk home.module (by simp [Target.names])
    · exact names name declared
  let port (name : String) : Target := .reference ((home.reference decl.name).field name)
  have portOk : ∀ name ∈ decl.portNames, (port name).NamedBy admits := fun name inside =>
    targets _ (List.mem_cons_of_mem _ (Declaration.mem_portTargets.mpr ⟨decl, name, rfl, inside, rfl⟩))
  have ports (items : List String) (within : ∀ name ∈ items, name ∈ decl.portNames) (s t : Sweep)
      (start : pair.together s t) :
      Alongside (fun a b => pair.together a.2 b.2 ∧
        Forall₃ (fun name => pair.given (port name)) items a.1 b.1)
        ((items.mapM fun name => plan.declare (port name).scope (port name)) s)
        ((items.mapM fun name => other.declare (port name).scope (port name)) t) :=
    Alongside.mapM_run start fun name inside s t start =>
      .ok (pair.rename (portOk name (within name inside)) start)
  refine (pair.declareLocal homeOk start nameOk).bind_run ?_
  rintro one s two t ⟨start, named⟩
  refine Alongside.bind_run (R := fun a b => pair.together a.2 b.2) (.ok (pair.openScope _ _ start)) ?_
  intro _ s _ t start
  refine Alongside.bind_run (R := fun a b => pair.together a.2 b.2)
    (.ok (pair.bindMemory (targets _ List.mem_cons_self) start)) ?_
  intro _ s _ t start
  refine (ports decl.readers (by simp +contextual [MemDecl.portNames]) s t start).bind_run ?_
  rintro readersOne s readersTwo t ⟨start, readers⟩
  refine (ports decl.writers (by simp +contextual [MemDecl.portNames]) s t start).bind_run ?_
  rintro writersOne s writersTwo t ⟨start, writers⟩
  refine (ports decl.readwriters (by simp +contextual [MemDecl.portNames]) s t start).bind_run ?_
  rintro bothOne s bothTwo t ⟨start, both⟩
  refine .ok ⟨start, .leaf ⟨⟨rfl, rfl⟩, .cons (.mem named fun role => ?_) .nil, .nil⟩ ⟨rfl, rfl, rfl⟩
    ⟨rfl, rfl, rfl⟩⟩
  cases role with
  | reader => exact readers
  | writer => exact writers
  | readwriter => exact both

end Declarations

mutual

theorem declareStmt {home : ModuleTarget} (homeOk : (Target.module home).NamedBy admits) {s t : Sweep}
    (start : pair.together s t) : ∀ stmt : Stmt, Stmt.NamedBy admits stmt.walk →
    Alongside (fun a b => pair.together a.2 b.2 ∧ pair.Named home [stmt] [a.1] [b.1])
      (plan.declareStmt home stmt s) (other.declareStmt home stmt t)
  | .wire name type, clean => by
    have nameOk :=
      clean _ List.mem_cons_self name (by simp [Stmt.names, Stmt.declaration?, Declaration.names])
    refine (pair.declareLocal homeOk start nameOk).bind_run fun one s two t ⟨next, given⟩ => .ok ⟨next, ?_⟩
    exact .leaf ⟨⟨rfl, rfl⟩, .cons (.signal given) .nil, .nil⟩ ⟨rfl, rfl, rfl⟩ ⟨rfl, rfl, rfl⟩
  | .reg name type clock reset, clean => by
    have nameOk :=
      clean _ List.mem_cons_self name (by simp [Stmt.names, Stmt.declaration?, Declaration.names])
    refine (pair.declareLocal homeOk start nameOk).bind_run fun one s two t ⟨next, given⟩ => .ok ⟨next, ?_⟩
    refine .leaf ⟨⟨rfl, rfl⟩, .cons (.signal given) .nil, ?_⟩ ⟨rfl, rfl, rfl⟩ ⟨rfl, rfl, rfl⟩
    cases reset <;> exact kept_refl _
  | .node name value, clean => by
    have nameOk :=
      clean _ List.mem_cons_self name (by simp [Stmt.names, Stmt.declaration?, Declaration.names])
    refine (pair.declareLocal homeOk start nameOk).bind_run fun one s two t ⟨next, given⟩ => .ok ⟨next, ?_⟩
    exact .leaf ⟨⟨rfl, rfl⟩, .cons (.signal given) .nil, kept_refl _⟩ ⟨rfl, rfl, rfl⟩ ⟨rfl, rfl, rfl⟩
  | .inst name module, clean => by
    have names := clean _ List.mem_cons_self
    exact pair.declareInstance homeOk start
      (names name (by simp [Stmt.names, Stmt.declaration?, Declaration.names]))
      (names module (by simp [Stmt.names, Stmt.declaration?, Declaration.names]))
  | .mem decl, clean => by
    refine pair.declareMemory homeOk start fun name inside => clean _ List.mem_cons_self name ?_
    exact List.mem_append_left _ inside
  | .when cond body otherwise, clean => by
    obtain ⟨inBody, inOtherwise⟩ := List.forall_mem_append.mp (List.forall_mem_cons.mp clean).2
    refine (declareStmts homeOk start body inBody).bind_run fun ones s twos t ⟨start, first⟩ => ?_
    exact (declareStmts homeOk start otherwise inOtherwise).bind_run fun _ _ _ _ ⟨last, later⟩ =>
      .ok ⟨last, first.when later⟩
  | .block body, clean =>
    (declareStmts homeOk start body (List.forall_mem_cons.mp clean).2).bind_run fun _ _ _ _ ⟨last, inside⟩ =>
      .ok ⟨last, inside.block⟩
  | .connect .., _ | .invalidate .., _ | .stop .., _ | .print .., _ | .skip, _ =>
    .ok ⟨start, .leaf ⟨⟨rfl, rfl⟩, .nil, kept_refl _⟩ ⟨rfl, rfl, rfl⟩ ⟨rfl, rfl, rfl⟩⟩

/-- What two sweeps in lockstep keep in common and how the names they give are related is stated once for a
single declaration, a single question and a single use; here it is carried through statements, whose names may
well repeat. -/
theorem declareStmts {home : ModuleTarget} (homeOk : (Target.module home).NamedBy admits) {s t : Sweep}
    (start : pair.together s t) : ∀ stmts : List Stmt, Stmt.NamedBy admits (Stmt.walkAll stmts) →
    Alongside (fun a b => pair.together a.2 b.2 ∧ pair.Named home stmts a.1 b.1)
      (plan.declareStmts home stmts s) (other.declareStmts home stmts t)
  | [], _ => .ok ⟨start, .nil⟩
  | stmt :: rest, clean => by
    obtain ⟨inFirst, inRest⟩ := List.forall_mem_append.mp clean
    refine (declareStmt homeOk start stmt inFirst).bind_run fun ones s twos t ⟨start, first⟩ => ?_
    exact (declareStmts homeOk start rest inRest).bind_run fun _ _ _ _ ⟨last, later⟩ =>
      .ok ⟨last, first.cons later⟩

end

end Lockstep

end CircuitNames
