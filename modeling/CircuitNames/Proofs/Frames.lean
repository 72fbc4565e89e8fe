import CircuitNames.Proofs.KeptNames

namespace CircuitNames

namespace Expr

/-- A use without the names in it that follow declarations. The signal of a memory port follows none, and
stays. -/
def eraseUse : Expr → Expr
  | ref _ => ref ""
  | subfield (ref _) _ => subfield (ref "") ""
  | subfield (subfield (ref _) _) signal => subfield (subfield (ref "") "") signal
  | other => other

def erased (expr : Expr) : Expr := expr.mapUses eraseUse

/-- The field that a use selects. -/
def field? : Expr → Option String
  | subfield _ field => some field
  | _ => none

end Expr

/-- A module without the names that a run can change. -/
def Module.erased (module : Module) : Module := module.relabel blank blank Expr.erased

/-- The circuit without the names that follow declarations: a run leaves everything else as it is, whatever
the rule picks. -/
def Circuit.erased (circuit : Circuit) : Circuit := ⟨"", circuit.modules.map Module.erased⟩

/-- A use in a module whose last name follows no declaration: a port of an instance of an external module, or
a signal of a memory port. -/
inductive Circuit.FixedField (circuit : Circuit) (module : RegularModule) : Expr → Prop
  | externalPort {root port : String} {callee : ExternalModule}
      (held : module.holder? root = some (.inst root callee.name))
      (isExternal : .external callee ∈ circuit.modules) :
        FixedField circuit module (.subfield (.ref root) port)
  | memorySignal (root port signal : String) :
      FixedField circuit module (.subfield (.subfield (.ref root) port) signal)

/-- What becomes of a module of the circuit: an external one gets another name, and in a regular one the
fields stay that follow no declaration. -/
inductive Circuit.FramedModule (circuit : Circuit) : Module → Module → Prop
  | external {module : ExternalModule} (name : String) : FramedModule circuit (.external module)
    (.external { module with name })
  | regular {module result : RegularModule}
      (fields : List.Forall₂ (fun stmt stmt' => List.Forall₂ (fun use use' =>
        circuit.FixedField module use → use'.field? = use.field?) stmt.uses stmt'.uses) module.statements
          result.statements) :
      FramedModule circuit (.regular module) (.regular result)

/-- A circuit that differs from another in the names of declarations alone. -/
structure Circuit.Framed (circuit out : Circuit) : Prop where
  erased : out.erased = circuit.erased
  modules : List.Forall₂ circuit.FramedModule circuit.modules out.modules

theorem Circuit.Framed.refl (circuit : Circuit) : circuit.Framed circuit where
  erased := rfl
  modules := by
    refine List.forall₂_same.mpr fun module _ => ?_
    cases module with
    | external module => exact .external module.name
    | regular module =>
      exact .regular (List.forall₂_same.mpr fun _ _ => List.forall₂_same.mpr fun _ _ _ => rfl)

/-- Following an expression changes nothing in it but names that follow declarations. -/
theorem Sweep.useExpr_erased {sweep : Sweep} {home : ModuleTarget} {expr result : Expr}
    (run : sweep.useExpr home expr = .ok result) : result.erased = expr.erased := by
  refine useExpr_mapUses (fun _ => rfl) ?_ run
  intro base field result followed
  rcases useField_shape followed with ⟨_, _, _, rfl, rfl⟩ | ⟨_, _, _, _, rfl, rfl⟩ <;> rfl

namespace Plan

variable (plan : Plan) {circuit : Circuit} {order before rest : List Module}

/-- The ports of an external module are not declared by any module. -/
theorem externalPort_undeclared (members : ∀ module ∈ order, module ∈ circuit.modules)
    (distinct : (circuit.modules.map Module.name).Nodup) {callee : ExternalModule}
    (isExternal : .external callee ∈ circuit.modules) (port : String) :
    Target.reference ((ModuleTarget.mk circuit.main callee.name).reference port) ∉
      declared (circuit.actions order) := by
  rw [Circuit.declared_actions]
  rintro (_ | ⟨_, inside⟩)
  obtain ⟨module, member, inside⟩ := List.mem_flatMap.mp inside
  have named : callee.name = module.name := Option.some.inj (Module.moduleName?_of_mem inside)
  obtain rfl := List.inj_on_of_nodup_map distinct isExternal (members module member) named
  simp [Module.targets] at inside

section Turn
variable {module : Module} (distinct : ((before ++ module :: rest).map Module.name).Nodup) {result : Module}
  (turned : plan.turn circuit (before ++ module :: rest) module = .ok result)
include distinct turned

theorem turn_erased : result.erased = module.erased := by
  obtain ⟨declared, given, followed⟩ := (plan.turn_eq_ok distinct).mp turned
  exact (Sweep.useModule_relabel Sweep.useExpr_erased followed).trans (declareModule_blank given)

end Turn

/-- The expressions of a module are followed where they stand. -/
theorem turn_exprs {module : RegularModule}
    (distinct : ((before ++ .regular module :: rest).map Module.name).Nodup) {result : Module}
    (turned : plan.turn circuit (before ++ .regular module :: rest) (.regular module) = .ok result) :
    ∃ own, result = .regular own ∧ List.Forall₂ (fun stmt stmt' => List.Forall₂ (fun expr expr' =>
      (plan.sweep circuit (before ++ [.regular module])).useExpr ⟨circuit.main, module.name⟩ expr = .ok expr')
        stmt.ownExprs stmt'.ownExprs) module.statements own.statements := by
  obtain ⟨declared, given, followed⟩ := (plan.turn_eq_ok distinct).mp turned
  have kept : declared.relabel blank blank id = (Module.regular module).relabel blank blank id :=
    declareModule_blank given
  cases declared with
  | external declared => cases kept
  | regular declared =>
    have sameExprs := Stmt.ownExprs_of_relabelAll (RegularModule.mk.inj (Module.regular.inj kept)).2.2
    obtain ⟨body, mapped, built⟩ := bind_eq_ok.mp followed
    obtain rfl := Except.ok.inj built
    have each : List.Forall₂ (fun exprs stmt' => List.Forall₂ (fun expr expr' =>
        (plan.sweep circuit (before ++ [.regular module])).useExpr
          ⟨circuit.main, module.name⟩ expr = .ok expr')
          exprs stmt'.ownExprs) ((Stmt.walkAll declared.body).map Stmt.ownExprs) (Stmt.walkAll body) :=
      List.forall₂_map_left_iff.mpr ((Stmt.mapExprsAllM_eq_ok mapped).imp fun _ _ mapsTo => mapsTo.2)
    rw [sameExprs] at each
    exact ⟨_, rfl, List.forall₂_map_left_iff.mp each⟩

variable (identified : circuit.Identified) (ordered : Hierarchy.Ordered circuit order)
  (distinct : (circuit.modules.map Module.name).Nodup)
include identified ordered distinct

/-- A field that follows no declaration is followed to itself. -/
theorem useExpr_fixedField {module : RegularModule} (member : .regular module ∈ order) {use use' : Expr}
    (useOk : use.Identified) (fixed : circuit.FixedField module use)
    (followed : (plan.sweep circuit order).useExpr ⟨circuit.main, module.name⟩ use = .ok use') :
    use'.field? = use.field? := by
  cases fixed with
  | @externalPort root port callee held isExternal =>
    have bound := plan.sweep_find?_holder identified ordered.members ordered.nodup member
      (useOk root (by simp [Expr.names]))
    rw [held, Option.bind_some] at bound
    rw [Sweep.useExpr, Sweep.useField_inst bound] at followed
    obtain ⟨_, -, followed⟩ := bind_eq_ok.mp followed
    obtain ⟨port', named, same⟩ := bind_eq_ok.mp followed
    obtain rfl := Except.ok.inj same
    -- no text of a declaration spells the port, so that no rename is recorded for it
    have portOk : isIdentifier port = true := useOk port (by simp [Expr.names])
    have calleeOk : isIdentifier callee.name = true := identified.moduleName isExternal
    have names := identified.reference calleeOk portOk
    have apart := Circuit.text_ne_of_undeclared identified ordered names
      (externalPort_undeclared ordered.members distinct isExternal port)
    have unrecorded : (plan.sweep circuit order).renames.resolve?
        (.reference ((ModuleTarget.mk circuit.main callee.name).reference port)) = none := by
      rw [Ledger.resolve?, sweep, perform_get?_of_ne apart]
      rfl
    change (plan.sweep circuit order).nameOf port
      (.reference ((ModuleTarget.mk circuit.main callee.name).reference port)) = .ok port' at named
    rw [Sweep.nameOf, unrecorded] at named
    exact congrArg some (Except.ok.inj named).symm
  | memorySignal root port signal =>
    rcases Sweep.useField_shape followed with ⟨_, _, _, same, -⟩ | ⟨_, _, _, _, -, rfl⟩
    · cases same
    · rfl

omit ordered in
/-- A turn keeps the frame of its module. -/
theorem turn_framed {module : Module} (ordered : Hierarchy.Ordered circuit (before ++ module :: rest))
    {result : Module} (turned : plan.turn circuit (before ++ module :: rest) module = .ok result) :
    circuit.FramedModule module result := by
  cases module with
  | external module =>
    obtain ⟨declared, given, followed⟩ := (plan.turn_eq_ok ordered.nodup).mp turned
    obtain ⟨name, _, -, built⟩ := run_bind_eq_ok.mp given
    obtain ⟨rfl, -⟩ := run_pure_eq_ok.mp built
    obtain rfl := Except.ok.inj followed
    exact .external name
  | regular module =>
    obtain ⟨own, rfl, each⟩ := plan.turn_exprs ordered.nodup turned
    have inCircuit := ordered.members (.regular module) (by simp)
    have soFar : Hierarchy.Ordered circuit (before ++ [.regular module]) :=
      ordered.left (by rw [← List.append_cons])
    refine .regular (forall₂_imp_of_mem each fun stmt isStmt stmt' exprs => ?_)
    have uses := List.rel_flatMap exprs fun _ _ => Sweep.useExpr_uses
    refine forall₂_imp_of_mem uses fun use isUse use' followed fixed => ?_
    exact plan.useExpr_fixedField identified soFar distinct (by simp)
      (identified.use inCircuit isStmt isUse) fixed followed

end Plan

/-- A plan changes nothing but names that follow declarations. -/
theorem Plan.renameCircuit_framed (plan : Plan) {circuit out : Circuit} {renames : Ledger}
    (identified : circuit.Identified)
    (run : plan.renameCircuit Circuit.leafToRoot circuit = .ok (out, renames)) : circuit.Framed out := by
  obtain ⟨order, asked⟩ := renameCircuit_order run
  have all := Circuit.leafToRoot_perm asked
  obtain ⟨distinct, -, ordered, -⟩ := Circuit.leafToRoot_spec asked
  obtain ⟨-, -, turned⟩ := (plan.renameCircuit_eq_ok_turns asked ordered.nodup all).mp run
  have each : List.Forall₂
      (fun module result => result.erased = module.erased ∧ circuit.FramedModule module result)
      circuit.modules out.modules := by
    refine forall₂_imp_of_mem turned fun module inCircuit result gave => ?_
    obtain ⟨before, rest, rfl⟩ := List.append_of_mem (all.mem_iff.mpr inCircuit)
    exact ⟨plan.turn_erased ordered.nodup gave, plan.turn_framed identified distinct ordered gave⟩
  refine ⟨?_, each.imp fun _ _ both => both.2⟩
  rw [Circuit.erased, Circuit.erased, map_eq_of_forall₂ (each.imp fun _ _ both => both.1)]

/-- A pass changes nothing in a circuit but names that follow declarations, whatever its rule and whatever it
skips: the circuits are the same once these names are erased, an external module keeps all that it holds, and
so do the fields that are no names of the circuit's own. Where each name is skipped, or is one for which the
rule picks no other name, the circuit stays as it is and an empty ledger stays empty. -/
theorem Pass.run_frame {name : String} {rule : Rule} {circuit out : Circuit} {ledger result : Ledger}
    {skips : SkipSet} (decoded : circuit.Decoded)
    (run : (Pass.ofRule name rule).run circuit ledger skips = .ok (out, result)) :
    circuit.Framed out ∧
    ((∀ entity ∈ circuit.entities, skips.contains entity.target = true ∨
        ∀ scope fresh, (rule entity.target.terminalName scope).1 = some fresh →
          fresh = entity.target.terminalName) →
      out = circuit ∧ (ledger = .empty → result = .empty)) := by
  refine ⟨?_, fun settled => run_kept settled run⟩
  cases skipped : Pass.leavesAlone skips circuit with
  | true =>
    obtain ⟨rfl, rfl⟩ := Prod.mk.inj (Except.ok.inj (run.symm.trans (run_leavesAlone skipped)))
    exact .refl _
  | false =>
    obtain ⟨renames, changed, -⟩ := (run_eq_ok skipped).mp run
    exact Plan.renameCircuit_framed _ decoded.identified changed

open Circuit in
theorem Pass.run_sample_frame :
    (∃ out ledger, (Pass.ofSpec .lowerCase).run Sample.circuit .empty .empty = .ok (out, ledger) ∧
      Sample.circuit.Framed out) ∧
    (Pass.ofSpec .verilogKeywords).run Sample.circuit .empty .empty = .ok (Sample.circuit, .empty) := by
  have lowers : ((Pass.ofSpec .lowerCase).run Sample.circuit .empty .empty).toOption.isSome =
    true := by decide +kernel
  obtain ⟨⟨out, ledger⟩, ran⟩ := Option.isSome_iff_exists.mp lowers
  have run := toOption_eq_some.mp ran
  refine ⟨⟨out, ledger, run, (Pass.run_frame Sample.decoded run).1⟩, ?_⟩
  have keywords :
      ((Pass.ofSpec .verilogKeywords).run Sample.circuit .empty .empty).toOption.isSome = true := by
    decide +kernel
  obtain ⟨⟨out, ledger⟩, ran⟩ := Option.isSome_iff_exists.mp keywords
  have run := toOption_eq_some.mp ran
  have none : ∀ entity ∈ Sample.circuit.entities, entity.target.terminalName ∉ verilogKeywords := by
    decide +kernel
  have settled : ∀ entity ∈ Sample.circuit.entities, SkipSet.empty.contains entity.target =
      true ∨ ∀ scope fresh,
      (Rule.avoidKeywords verilogKeywords entity.target.terminalName scope).1 = some fresh →
        fresh = entity.target.terminalName := by
    intro entity inside
    refine Or.inr fun scope fresh picks => ?_
    rw [Rule.avoidKeywords_keeps_iff.mpr (none entity inside)] at picks
    cases picks
  obtain ⟨same, stays⟩ := (Pass.run_frame Sample.decoded run).2 settled
  rw [run, same, stays rfl]

end CircuitNames
