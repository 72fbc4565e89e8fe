import CircuitNames.Proofs.DecodedCircuits
import CircuitNames.Proofs.IdentifiedResults
import CircuitNames.Proofs.LockstepRuns
import CircuitNames.Proofs.SoundLedgers

namespace CircuitNames

/-- What relates the results of two computations that succeed. -/
theorem Alongside.related {ε α β : Type} {R : α → β → Prop} {x : Except ε α} {y : Except ε β}
    (along : Alongside R x y) {a : α} {b : β} (first : x = .ok a) (second : y = .ok b) : R a b := by
  cases along with
  | ok related => exact Except.ok.inj first ▸ Except.ok.inj second ▸ related
  | error fault => cases first

theorem Forall₃.forall_left {α β γ : Type} {P : β → Prop} {items : List α} {ones : List β} {twos : List γ}
    {R : α → β → γ → Prop} (related : Forall₃ R items ones twos)
    (each : ∀ item ∈ items, ∀ one two, R item one two → P one) :
    ∀ one ∈ ones, P one := by
  induction related with
  | nil => exact List.forall_mem_nil _
  | cons here _ ih =>
    obtain ⟨first, later⟩ := List.forall_mem_cons.mp each
    exact List.forall_mem_cons.mpr ⟨first _ _ here, ih later⟩

namespace Sweep

variable {sweep : Sweep} {home : ModuleTarget} {admits : Number → Prop}

/-- Any pass changes names alone, so that what can be written stays so. -/
theorem useField_formed {base result : Expr} {field : String}
    (run : sweep.useField home base field = .ok result) :
    result.Formed admits := by
  unfold useField at run
  split at run
  · obtain ⟨binding, _, run⟩ := bind_eq_ok.mp run
    split at run <;>
    · obtain ⟨root, _, run⟩ := bind_eq_ok.mp run
      obtain ⟨field, _, run⟩ := bind_eq_ok.mp run
      exact Except.ok.inj run ▸ trivial
  · obtain ⟨binding, _, run⟩ := bind_eq_ok.mp run
    split at run
    · cases run
    · obtain ⟨root, _, run⟩ := bind_eq_ok.mp run
      obtain ⟨port, _, run⟩ := bind_eq_ok.mp run
      exact Except.ok.inj run ▸ trivial
  · cases run
  · cases run

mutual

/-- A use keeps what an expression is made of, whatever its names become. -/
theorem useExpr_formed : ∀ {expr result : Expr}, sweep.useExpr home expr = .ok result → expr.Formed admits →
    result.Formed admits
  | .ref name, result, run, _ => by
    obtain ⟨name, _, run⟩ := bind_eq_ok.mp run
    exact Except.ok.inj run ▸ trivial
  | .subfield base field, result, run, _ => useField_formed run
  | .uintLit .., result, run, formed | .sintLit .., result, run, formed => Except.ok.inj run ▸ formed
  | .prim op args consts, result, run, ⟨named, formed, counts⟩ => by
    obtain ⟨args', atArgs, run⟩ := bind_eq_ok.mp run
    exact Except.ok.inj run ▸ ⟨named, useExprs_formed atArgs formed, counts⟩
  | .mux cond whenTrue whenFalse, result, run, ⟨condOk, trueOk, falseOk⟩ => by
    obtain ⟨cond', atCond, run⟩ := bind_eq_ok.mp run
    obtain ⟨true', atTrue, run⟩ := bind_eq_ok.mp run
    obtain ⟨false', atFalse, run⟩ := bind_eq_ok.mp run
    exact Except.ok.inj run ▸
      ⟨useExpr_formed atCond condOk, useExpr_formed atTrue trueOk, useExpr_formed atFalse falseOk⟩
  | .validIf cond value, result, run, ⟨condOk, valueOk⟩ => by
    obtain ⟨cond', atCond, run⟩ := bind_eq_ok.mp run
    obtain ⟨value', atValue, run⟩ := bind_eq_ok.mp run
    exact Except.ok.inj run ▸ ⟨useExpr_formed atCond condOk, useExpr_formed atValue valueOk⟩

theorem useExprs_formed : ∀ {exprs results : List Expr}, sweep.useExprs home exprs = .ok results →
    Expr.FormedAll admits exprs → Expr.FormedAll admits results
  | [], results, run, _ => Except.ok.inj run ▸ trivial
  | expr :: rest, results, run, ⟨first, later⟩ => by
    obtain ⟨result, atFirst, run⟩ := bind_eq_ok.mp run
    obtain ⟨others, atRest, run⟩ := bind_eq_ok.mp run
    exact Except.ok.inj run ▸ ⟨useExpr_formed atFirst first, useExprs_formed atRest later⟩

end

end Sweep

/-- A plan beside itself: what its renames keep, the names it may give, and what it makes of an expression. -/
def Lockstep.alone {admits : String → Prop} (plan : Plan) (keeps : Ledger → Prop) (gives : String → Prop)
    (makes : Expr → Expr → Prop)
    (rename : ∀ {target : Target} {s : Sweep}, target.NamedBy admits → keeps s.renames →
      keeps (plan.rename target.scope target s).2.renames ∧ gives (plan.rename target.scope target s).1)
    (consult : ∀ {callee : ModuleTarget} {s : Sweep} {name : String}, (Target.module callee).NamedBy admits →
      keeps s.renames → s.nameOf callee.module (.module callee) = .ok name → gives name)
    (use : ∀ {home : ModuleTarget} {expr result : Expr} {s : Sweep}, expr.NamedBy admits → keeps s.renames →
      s.useExpr home expr = .ok result → makes expr result) : Lockstep admits plan plan where
  together s t := s = t ∧ keeps s.renames
  given _ one _ := gives one
  asked one _ := gives one
  used expr one _ := makes expr one
  rename := by
    rintro target s _ names ⟨rfl, kept⟩
    obtain ⟨next, given⟩ := rename names kept
    exact ⟨⟨rfl, next⟩, given⟩
  openScope := by
    rintro s _ key first ⟨rfl, kept⟩
    refine ⟨rfl, ?_⟩
    rwa [Plan.openScope_renames]
  bindInstance := by
    rintro s _ base target - ⟨rfl, kept⟩
    exact ⟨rfl, kept⟩
  bindMemory := by
    rintro s _ base - ⟨rfl, kept⟩
    exact ⟨rfl, kept⟩
  consult := by
    rintro callee s _ names ⟨rfl, kept⟩
    exact (Alongside.refl (R := fun _ _ => True) (fun _ => trivial) _).imp_ok fun _ _ run _ _ =>
      consult names kept run
  use := by
    rintro home expr s _ - names ⟨rfl, kept⟩
    exact (Alongside.refl (R := fun _ _ => True) (fun _ => trivial) _).imp_ok fun _ _ run _ _ =>
      use names kept run

namespace Stmt

theorem counted_frame {admits : Number → Prop} (stmt : Stmt) :
    stmt.frame.Counted admits ↔ stmt.Counted admits := by
  cases stmt <;> exact Iff.rfl

end Stmt

namespace Plan

variable {plan : Plan} {circuit out : Circuit} {renames : Ledger}

theorem rename_keyed {key : ScopeKey} {target : Target} {sweep : Sweep} (keyed : sweep.renames.Keyed) :
    (plan.rename key target sweep).2.renames.Keyed := by
  rw [rename_renames]
  split
  · exact keyed
  · exact keyed.register _ _

/-- A pass with any rule leaves what can be written so, and each of its renames once. -/
theorem renameCircuit_formed {admits : Number → Prop}
    (run : plan.renameCircuit Circuit.leafToRoot circuit = .ok (out, renames)) :
    (circuit.Formed admits → out.Formed admits) ∧ renames.Keyed := by
  let pair : Lockstep (fun _ => True) plan plan := .alone plan Ledger.Keyed (fun _ => True)
    (fun expr result => expr.Formed admits → result.Formed admits)
      (fun _ keyed => ⟨rename_keyed keyed, trivial⟩) (fun _ _ _ => trivial)
    fun _ _ used => Sweep.useExpr_formed used
  have start : pair.together (.start circuit) (.start circuit) := ⟨rfl, Ledger.keyed_empty⟩
  have runs := pair.renameCircuit trivial (fun _ _ _ _ => trivial) start
  obtain ⟨⟨s, t, ⟨rfl, keyed⟩, rfl, -⟩, became⟩ := runs.related run run
  refine ⟨fun formed => became.modules.forall_left fun module inside one two followed => ?_, keyed⟩
  have before := formed module inside
  cases followed with
  | external named => exact before
  | regular became =>
    obtain ⟨counted, formed⟩ := before
    constructor
    · refine became.ports.forall_left fun port isPort one two here => ?_
      rw [here.rest.1]
      exact counted port isPort
    · refine became.statements.forall_left fun stmt isStmt one two here => ⟨?_, ?_⟩
      · rw [← Stmt.counted_frame, here.frames.1, Stmt.counted_frame]
        exact (formed stmt isStmt).counted
      · exact here.exprs.forall_left fun expr held one two used => used ((formed stmt isStmt).exprs expr held)

theorem rename_sound (proper : plan.rule.Identifies) {key : ScopeKey} {target : Target} {sweep : Sweep}
    (names : target.Identified) (sound : sweep.renames.Sound) :
    (plan.rename key target sweep).2.renames.Sound ∧
      isIdentifier (plan.rename key target sweep).1 = true := by
  have picked := pick_identified proper names (sweep.scope key)
  rw [rename_renames, rename_name]
  refine ⟨?_, picked⟩
  split
  · exact sound
  · exact sound.register names picked

/-- What a pass declares is named by the identifiers that it gave. -/
theorem declared_names_identified {pair : Lockstep (isIdentifier · = true) plan plan}
    (given : ∀ {target one two}, pair.given target one two → isIdentifier one = true)
    (asked : ∀ {one two}, pair.asked one two → isIdentifier one = true) {home : ModuleTarget}
    {declaration one two : Declaration} (declared : pair.Declared home declaration one two) :
    ∀ name ∈ one.names, isIdentifier name = true := by
  cases declared with
  | signal named => exact List.forall_mem_singleton.mpr (given named)
  | inst named instantiates =>
    exact List.forall_mem_cons.mpr ⟨given named, List.forall_mem_singleton.mpr (asked instantiates)⟩
  | @mem decl one two named ports =>
    have inRole (role : PortRole) : ∀ port ∈ one.portsIn role, isIdentifier port = true :=
      (ports role).forall_left fun _ _ _ _ here => given here
    have reads := List.forall_mem_append.mpr ⟨inRole .reader, inRole .writer⟩
    exact List.forall_mem_cons.mpr ⟨given named, List.forall_mem_append.mpr ⟨reads, inRole .readwriter⟩⟩

/-- A pass whose rule picks identifiers leaves a circuit in which every name is one, and a sound ledger. -/
theorem renameCircuit_sound (proper : plan.rule.Identifies) (identified : circuit.Identified)
    (run : plan.renameCircuit Circuit.leafToRoot circuit = .ok (out, renames)) :
    out.Identified ∧ renames.Sound := by
  -- The sweep runs beside itself, so that what holds of each name it gives holds of all of the result.
  let pair : Lockstep (isIdentifier · = true) plan plan := .alone plan Ledger.Sound (isIdentifier · = true)
    (fun _ result => result.Identified) (rename_sound proper)
    (fun names sound asked => Sweep.nameOf_identified sound.identifies
      (names _ (by simp [Target.names])) asked)
    fun names sound used => Sweep.useExpr_identified sound.identifies names used
  have start : pair.together (.start circuit) (.start circuit) := ⟨rfl, Ledger.sound_empty⟩
  have runs := pair.renameCircuit identified.main identified.modules start
  obtain ⟨⟨s, t, ⟨rfl, sound⟩, rfl, -⟩, became⟩ := runs.related run run
  refine ⟨⟨became.main, became.modules.forall_left fun module inside one two followed => ?_⟩, sound⟩
  cases followed with
  | external named =>
    exact List.forall_mem_cons.mpr ⟨named, (List.forall_mem_cons.mp (identified.modules _ inside)).2⟩
  | @regular module one two became =>
    refine List.forall_mem_append.mpr ⟨List.forall_mem_cons.mpr ⟨became.name, ?_⟩, ?_⟩
    · exact List.forall_mem_map.mpr (became.ports.forall_left fun _ _ _ _ here => here.name)
    · intro name inside
      obtain ⟨stmt, isStmt, holds⟩ := List.mem_flatMap.mp inside
      have legible :=
        became.statements.forall_left (P := fun stmt => ∀ name ∈ stmt.names, isIdentifier name = true)
        fun before _ one two here => by
          refine List.forall_mem_append.mpr ⟨?_, ?_⟩
          · have declares := here.declared
            cases found : one.declaration? with
            | none => exact List.forall_mem_nil _
            | some declaration =>
              rw [found] at declares
              exact declares.forall_left
                (P := fun declaration => ∀ name ∈ declaration.names, isIdentifier name = true)
                (fun _ _ _ _ here => declared_names_identified (fun given => given) (fun asked => asked) here)
                declaration (by simp)
          · intro name inside
            obtain ⟨expr, held, holds⟩ := List.mem_flatMap.mp inside
            exact here.exprs.forall_left (P := Expr.Identified)
              (fun _ _ _ _ used => used) expr held name holds
      exact legible stmt isStmt name holds

end Plan

end CircuitNames
