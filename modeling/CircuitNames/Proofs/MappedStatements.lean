import CircuitNames.Circuit.Traversal
import CircuitNames.Proofs.Binds
import CircuitNames.Proofs.Declarations

namespace CircuitNames.Stmt

variable {ε : Type} {f : Expr → Except ε Expr}

/-- A statement with the same declaration, whose expressions are those that a function gives. -/
def MapsTo (f : Expr → Except ε Expr) (stmt result : Stmt) : Prop :=
  result.declaration? = stmt.declaration? ∧
    List.Forall₂ (fun expr mapped => f expr = .ok mapped) stmt.ownExprs result.ownExprs

/-- The statements nested in a statement. -/
def held : Stmt → List Stmt
  | when _ body otherwise => walkAll body ++ walkAll otherwise
  | block body => walkAll body
  | _ => []

theorem walk_eq (stmt : Stmt) : stmt.walk = stmt :: stmt.held := by
  cases stmt <;> rfl

/-- A statement's own expressions are mapped one by one, and what it holds stays. -/
theorem mapOwnExprsM_eq_ok {stmt result : Stmt} (run : stmt.mapOwnExprsM f = .ok result) :
    stmt.MapsTo f result ∧ result.held = stmt.held := by
  cases stmt with
  | wire name type | inst name module | mem decl | block body | skip =>
    obtain rfl := Except.ok.inj run
    exact ⟨⟨rfl, .nil⟩, rfl⟩
  | reg name type clock reset =>
    cases reset with
    | none =>
      obtain ⟨clock', atClock, run⟩ := bind_eq_ok.mp run
      obtain rfl := Except.ok.inj run
      exact ⟨⟨rfl, .cons atClock .nil⟩, rfl⟩
    | some reset =>
      obtain ⟨clock', atClock, run⟩ := bind_eq_ok.mp run
      obtain ⟨signal, atSignal, run⟩ := bind_eq_ok.mp run
      obtain ⟨init, atInit, run⟩ := bind_eq_ok.mp run
      obtain rfl := Except.ok.inj run
      exact ⟨⟨rfl, .cons atClock (.cons atSignal (.cons atInit .nil))⟩, rfl⟩
  | node name value =>
    obtain ⟨value', atValue, run⟩ := bind_eq_ok.mp run
    obtain rfl := Except.ok.inj run
    exact ⟨⟨rfl, .cons atValue .nil⟩, rfl⟩
  | connect loc value =>
    obtain ⟨loc', atLoc, run⟩ := bind_eq_ok.mp run
    obtain ⟨value', atValue, run⟩ := bind_eq_ok.mp run
    obtain rfl := Except.ok.inj run
    exact ⟨⟨rfl, .cons atLoc (.cons atValue .nil)⟩, rfl⟩
  | invalidate target =>
    obtain ⟨target', atTarget, run⟩ := bind_eq_ok.mp run
    obtain rfl := Except.ok.inj run
    exact ⟨⟨rfl, .cons atTarget .nil⟩, rfl⟩
  | when cond body otherwise =>
    obtain ⟨cond', atCond, run⟩ := bind_eq_ok.mp run
    obtain rfl := Except.ok.inj run
    exact ⟨⟨rfl, .cons atCond .nil⟩, rfl⟩
  | stop clock en exitCode =>
    obtain ⟨clock', atClock, run⟩ := bind_eq_ok.mp run
    obtain ⟨en', atEn, run⟩ := bind_eq_ok.mp run
    obtain rfl := Except.ok.inj run
    exact ⟨⟨rfl, .cons atClock (.cons atEn .nil)⟩, rfl⟩
  | print clock en format args =>
    obtain ⟨clock', atClock, run⟩ := bind_eq_ok.mp run
    obtain ⟨en', atEn, run⟩ := bind_eq_ok.mp run
    obtain ⟨args', atArgs, run⟩ := bind_eq_ok.mp run
    obtain rfl := Except.ok.inj run
    exact ⟨⟨rfl, .cons atClock (.cons atEn (mapM_eq_ok.mp atArgs))⟩, rfl⟩

/-- Where each expression is mapped to another, the statement is. -/
theorem mapOwnExprsM_total {stmt : Stmt} (each : ∀ expr ∈ stmt.ownExprs, ∃ mapped, f expr = .ok mapped) :
    ∃ result, stmt.mapOwnExprsM f = .ok result := by
  cases stmt with
  | wire name type | inst name module | mem decl | block body | skip => exact ⟨_, rfl⟩
  | reg name type clock reset =>
    cases reset with
    | none =>
      obtain ⟨clock', atClock⟩ := each clock (by simp [ownExprs])
      exact ⟨_, bind_eq_ok.mpr ⟨clock', atClock, rfl⟩⟩
    | some reset =>
      obtain ⟨clock', atClock⟩ := each clock (by simp [ownExprs])
      obtain ⟨signal, atSignal⟩ := each reset.signal (by simp [ownExprs])
      obtain ⟨init, atInit⟩ := each reset.init (by simp [ownExprs])
      exact ⟨_, bind_eq_ok.mpr
        ⟨clock', atClock, bind_eq_ok.mpr ⟨signal, atSignal, bind_eq_ok.mpr ⟨init, atInit, rfl⟩⟩⟩⟩
  | node name value =>
    obtain ⟨value', atValue⟩ := each value (by simp [ownExprs])
    exact ⟨_, bind_eq_ok.mpr ⟨value', atValue, rfl⟩⟩
  | connect loc value =>
    obtain ⟨loc', atLoc⟩ := each loc (by simp [ownExprs])
    obtain ⟨value', atValue⟩ := each value (by simp [ownExprs])
    exact ⟨_, bind_eq_ok.mpr ⟨loc', atLoc, bind_eq_ok.mpr ⟨value', atValue, rfl⟩⟩⟩
  | invalidate target =>
    obtain ⟨target', atTarget⟩ := each target (by simp [ownExprs])
    exact ⟨_, bind_eq_ok.mpr ⟨target', atTarget, rfl⟩⟩
  | when cond body otherwise =>
    obtain ⟨cond', atCond⟩ := each cond (by simp [ownExprs])
    exact ⟨_, bind_eq_ok.mpr ⟨cond', atCond, rfl⟩⟩
  | stop clock en exitCode =>
    obtain ⟨clock', atClock⟩ := each clock (by simp [ownExprs])
    obtain ⟨en', atEn⟩ := each en (by simp [ownExprs])
    exact ⟨_, bind_eq_ok.mpr ⟨clock', atClock, bind_eq_ok.mpr ⟨en', atEn, rfl⟩⟩⟩
  | print clock en format args =>
    obtain ⟨clock', atClock⟩ := each clock (by simp [ownExprs])
    obtain ⟨en', atEn⟩ := each en (by simp [ownExprs])
    have inArgs : ∀ arg ∈ args, ∃ mapped, f arg = .ok mapped := fun arg inside =>
      each arg (by simp [ownExprs, inside])
    obtain ⟨args', atArgs⟩ := mapM_total inArgs
    exact ⟨_, bind_eq_ok.mpr
      ⟨clock', atClock, bind_eq_ok.mpr ⟨en', atEn, bind_eq_ok.mpr ⟨args', atArgs, rfl⟩⟩⟩⟩

section Congruence
variable {g h : Expr → Except ε Expr}

theorem mapOwnExprsM_congr {stmt : Stmt} (same : ∀ expr ∈ stmt.ownExprs, g expr = h expr) :
    stmt.mapOwnExprsM g = stmt.mapOwnExprsM h := by
  cases stmt with
  | wire name type | inst name module | mem decl | block body | skip => rfl
  | reg name type clock reset => cases reset <;> simp_all [mapOwnExprsM, ownExprs]
  | node name value | connect loc value | invalidate target | when cond body otherwise
  | stop clock en exitCode =>
    simp_all [mapOwnExprsM, ownExprs]
  | print clock en format args =>
    obtain ⟨atClock, atEn, inArgs⟩ : g clock = h clock ∧ g en = h en ∧ ∀ arg ∈ args, g arg = h arg := by
      simpa [ownExprs] using same
    simp only [mapOwnExprsM, atClock, atEn, mapM_congr inArgs]

mutual

/-- Only the expressions that occur matter. -/
theorem mapExprsM_congr : ∀ {stmt : Stmt}, (∀ part ∈ stmt.walk, ∀ expr ∈ part.ownExprs, g expr = h expr) →
    stmt.mapExprsM g = stmt.mapExprsM h
  | when cond body otherwise, same => by
    obtain ⟨own, nested⟩ := List.forall_mem_cons.mp same
    obtain ⟨inBody, inOtherwise⟩ := List.forall_mem_append.mp nested
    have atWhen (body' otherwise' : List Stmt) :
        (when cond body' otherwise').mapOwnExprsM g = (when cond body' otherwise').mapOwnExprsM h :=
      mapOwnExprsM_congr own
    simp only [mapExprsM, mapExprsAllM_congr inBody, mapExprsAllM_congr inOtherwise, atWhen]
  | block body, same => by
    simp only [mapExprsM, mapExprsAllM_congr (List.forall_mem_cons.mp same).2]
  | wire .., same | reg .., same | node .., same | inst .., same | mem .., same | connect .., same
  | invalidate .., same | stop .., same | print .., same | skip, same => by
    simp only [mapExprsM]
    exact mapOwnExprsM_congr (List.forall_mem_singleton.mp same)

theorem mapExprsAllM_congr : ∀ {stmts : List Stmt},
    (∀ part ∈ walkAll stmts, ∀ expr ∈ part.ownExprs, g expr = h expr) →
      mapExprsAllM g stmts = mapExprsAllM h stmts
  | [], _ => rfl
  | stmt :: rest, same => by
    obtain ⟨inFirst, inRest⟩ := List.forall_mem_append.mp same
    simp only [mapExprsAllM, mapExprsM_congr inFirst, mapExprsAllM_congr inRest]

end

end Congruence

mutual

/-- Mapping the expressions of a tree of statements keeps its shape and maps each statement in it. -/
theorem mapExprsM_eq_ok : ∀ {stmt result : Stmt}, stmt.mapExprsM f = .ok result →
    List.Forall₂ (MapsTo f) stmt.walk result.walk
  | when cond body otherwise, result, run => by
    rw [mapExprsM] at run
    obtain ⟨body', atBody, run⟩ := bind_eq_ok.mp run
    obtain ⟨otherwise', atOtherwise, run⟩ := bind_eq_ok.mp run
    obtain ⟨own, same⟩ := mapOwnExprsM_eq_ok run
    rw [walk_eq, walk_eq, same]
    exact .cons own (List.rel_append (mapExprsAllM_eq_ok atBody) (mapExprsAllM_eq_ok atOtherwise))
  | block body, result, run => by
    rw [mapExprsM] at run
    obtain ⟨body', atBody, run⟩ := bind_eq_ok.mp run
    obtain rfl := Except.ok.inj run
    exact .cons ⟨rfl, .nil⟩ (mapExprsAllM_eq_ok atBody)
  | wire .., result, run | reg .., result, run | node .., result, run | inst .., result, run
  | mem .., result, run | connect .., result, run | invalidate .., result, run | stop .., result, run
  | print .., result, run | skip, result, run => by
    simp only [mapExprsM] at run
    obtain ⟨own, same⟩ := mapOwnExprsM_eq_ok run
    rw [walk_eq, walk_eq, same]
    exact .cons own .nil

/-- Each part of the statements becomes the part at its place with its own expressions mapped. -/
theorem mapExprsAllM_eq_ok : ∀ {stmts results : List Stmt}, mapExprsAllM f stmts = .ok results →
    List.Forall₂ (MapsTo f) (walkAll stmts) (walkAll results)
  | [], results, run => by
    obtain rfl := Except.ok.inj run
    exact .nil
  | stmt :: rest, results, run => by
    obtain ⟨first, atFirst, run⟩ := bind_eq_ok.mp run
    obtain ⟨later, atLater, run⟩ := bind_eq_ok.mp run
    obtain rfl := Except.ok.inj run
    exact List.rel_append (mapExprsM_eq_ok atFirst) (mapExprsAllM_eq_ok atLater)

end

mutual

theorem mapExprsM_total : ∀ {stmt : Stmt},
    (∀ part ∈ stmt.walk, ∀ expr ∈ part.ownExprs, ∃ mapped, f expr = .ok mapped) →
    ∃ result, stmt.mapExprsM f = .ok result
  | when cond body otherwise, each => by
    obtain ⟨own, nested⟩ := List.forall_mem_cons.mp each
    obtain ⟨inBody, inOtherwise⟩ := List.forall_mem_append.mp nested
    obtain ⟨body', atBody⟩ := mapExprsAllM_total inBody
    obtain ⟨otherwise', atOtherwise⟩ := mapExprsAllM_total inOtherwise
    have atWhen : ∀ expr ∈ (when cond body' otherwise').ownExprs, ∃ mapped, f expr = .ok mapped := own
    obtain ⟨result, mapped⟩ := mapOwnExprsM_total atWhen
    exact ⟨result, bind_eq_ok.mpr ⟨body', atBody, bind_eq_ok.mpr ⟨otherwise', atOtherwise, mapped⟩⟩⟩
  | block body, each => by
    obtain ⟨body', atBody⟩ := mapExprsAllM_total (List.forall_mem_cons.mp each).2
    exact ⟨_, bind_eq_ok.mpr ⟨body', atBody, rfl⟩⟩
  | wire .., each | reg .., each | node .., each | inst .., each | mem .., each | connect .., each
  | invalidate .., each | stop .., each | print .., each | skip, each => by
    simp only [mapExprsM]
    exact mapOwnExprsM_total (List.forall_mem_singleton.mp each)

theorem mapExprsAllM_total : ∀ {stmts : List Stmt},
    (∀ part ∈ walkAll stmts, ∀ expr ∈ part.ownExprs, ∃ mapped, f expr = .ok mapped) →
    ∃ results, mapExprsAllM f stmts = .ok results
  | [], _ => ⟨_, rfl⟩
  | stmt :: rest, each => by
    obtain ⟨inFirst, inRest⟩ := List.forall_mem_append.mp each
    obtain ⟨first, atFirst⟩ := mapExprsM_total inFirst
    obtain ⟨later, atLater⟩ := mapExprsAllM_total inRest
    exact ⟨_, bind_eq_ok.mpr ⟨first, atFirst, bind_eq_ok.mpr ⟨later, atLater, rfl⟩⟩⟩

end

end CircuitNames.Stmt
