import CircuitNames.Proofs.SettledUses
import CircuitNames.Rename.Pass

namespace CircuitNames

namespace Plan

variable {circuit : Circuit} {order before rest : List Module} {module : Module} (plan : Plan)

/-- What becomes of a module when its turn comes, after the modules before it in the order. -/
def turn (plan : Plan) (circuit : Circuit) (order : List Module) (module : Module) : Except Fault Module := do
  let (result, _) ← plan.renameModule circuit.main module
    (plan.sweep circuit (order.takeWhile (·.name != module.name)))
  return result

/-- Where the names of the modules differ, the modules before a turn are those up to the first of that
name. -/
theorem takeWhile_turn (distinct : ((before ++ module :: rest).map Module.name).Nodup) :
    (before ++ module :: rest).takeWhile (·.name != module.name) = before := by
  rw [List.map_append, List.nodup_append'] at distinct
  have apart : ∀ other ∈ before, (other.name != module.name) = true := by
    intro other inside
    have fresh := distinct.2.2 (List.mem_map_of_mem inside)
    exact bne_iff_ne.mpr fun same => fresh (same ▸ List.mem_cons_self)
  rw [List.takeWhile_append_of_pos apart]
  simp

/-- The sweep over a module's predecessors and the module is the sweep over the predecessors and then the
module's actions. -/
theorem sweep_snoc : plan.perform (module.actions circuit.main) (plan.sweep circuit before) =
    plan.sweep circuit (before ++ [module]) := by
  rw [sweep_append, List.flatMap_singleton]

/-- Where one function gives the names of a module, its turn consists in following the uses under these
names. -/
theorem turn_of_gives (distinct : ((before ++ module :: rest).map Module.name).Nodup)
    {names : Target → String}
    (gives : plan.Gives names (module.actions circuit.main) (plan.sweep circuit before)) :
    plan.turn circuit (before ++ module :: rest) module =
      (plan.sweep circuit (before ++ [module])).useModule ⟨circuit.main, module.name⟩
        (module.renamed names circuit.main) := by
  have run : plan.renameModule circuit.main module (plan.sweep circuit before) =
      (plan.sweep circuit (before ++ [module])).useModule ⟨circuit.main, module.name⟩
        (module.renamed names circuit.main) >>=
        fun result => .ok (result, plan.sweep circuit (before ++ [module])) := by
    rw [renameModule, StateT.run, declareModule_run gives, sweep_snoc]
    rfl
  rw [turn, takeWhile_turn distinct, run, bind_assoc]
  exact bind_pure (m := Except Fault) _

/-- A turn gives a module its names, and then follows the uses in it under all names given so far. -/
theorem turn_eq_ok (distinct : ((before ++ module :: rest).map Module.name).Nodup) {result : Module} :
    plan.turn circuit (before ++ module :: rest) module = .ok result ↔ ∃ declared,
      plan.declareModule circuit.main module (plan.sweep circuit before) =
        .ok (declared, plan.sweep circuit (before ++ [module])) ∧
      (plan.sweep circuit (before ++ [module])).useModule ⟨circuit.main, module.name⟩ declared =
        .ok result := by
  rw [turn, takeWhile_turn distinct, bind_eq_ok]
  constructor
  · rintro ⟨⟨found, _⟩, run, same⟩
    obtain rfl := Except.ok.inj same
    obtain ⟨⟨declared, after⟩, atDeclared, run⟩ := bind_eq_ok.mp run
    obtain ⟨used, followed, same⟩ := bind_eq_ok.mp run
    obtain ⟨rfl, rfl⟩ := Prod.mk.inj (Except.ok.inj same)
    obtain rfl : after = _ := (declareModule_after atDeclared).trans plan.sweep_snoc
    exact ⟨declared, atDeclared, followed⟩
  · rintro ⟨declared, atDeclared, followed⟩
    refine ⟨(result, plan.sweep circuit (before ++ [module])), bind_ok atDeclared ?_, rfl⟩
    exact bind_ok followed rfl

theorem renameModule_after {main : String} {result : Module} {sweep after : Sweep}
    (run : plan.renameModule main module sweep = .ok (result, after)) :
    after = plan.perform (module.actions main) sweep := by
  obtain ⟨⟨declared, next⟩, atDeclared, run⟩ := bind_eq_ok.mp run
  obtain ⟨used, _, same⟩ := bind_eq_ok.mp run
  obtain ⟨rfl, rfl⟩ := Prod.mk.inj (Except.ok.inj same)
  exact declareModule_after atDeclared

/-- What becomes of a module is decided by the sweep over those before it. The names inside the modules may
repeat here; only the names of the modules may not. -/
theorem renameModule_eq_ok_turn (distinct : ((before ++ module :: rest).map Module.name).Nodup)
    {result : Module} {after : Sweep} :
    plan.renameModule circuit.main module (plan.sweep circuit before) = .ok (result, after) ↔
      plan.turn circuit (before ++ module :: rest) module = .ok result ∧
        after = plan.sweep circuit (before ++ [module]) := by
  rw [turn, takeWhile_turn distinct, bind_eq_ok]
  constructor
  · intro run
    exact ⟨⟨_, run, rfl⟩, (plan.renameModule_after run).trans plan.sweep_snoc⟩
  · rintro ⟨⟨⟨found, later⟩, run, same⟩, rfl⟩
    obtain rfl := Except.ok.inj same
    rw [run, plan.renameModule_after run, sweep_snoc]

/-- Modules are renamed one after the other, each when its turn comes. -/
theorem renameModules_eq_ok (distinct : ((before ++ rest).map Module.name).Nodup)
    {renamed out : List (String × Module)} {finished : Sweep} :
    plan.renameModules circuit.main rest renamed (plan.sweep circuit before) = .ok (out, finished) ↔
      finished = plan.sweep circuit (before ++ rest) ∧ ∃ entries,
        List.Forall₂ (fun module entry => entry.1 = module.name ∧
          plan.turn circuit (before ++ rest) module = .ok entry.2) rest entries ∧
        out = entries.reverse ++ renamed := by
  induction rest generalizing before renamed with
  | nil => simp [renameModules, eq_comm, and_comm]
  | cons module rest ih =>
    have step := fun result after =>
      @renameModule_eq_ok_turn circuit before rest module plan distinct result after
    rw [List.append_cons] at distinct step ⊢
    simp only [renameModules, bind_eq_ok, Prod.exists, step, List.forall₂_cons_left_iff]
    constructor
    · rintro ⟨result, _, ⟨turned, rfl⟩, later⟩
      obtain ⟨rfl, entries, each, rfl⟩ := (ih distinct).mp later
      exact ⟨rfl, (module.name, result) :: entries, ⟨_, _, _, ⟨rfl, turned⟩, each, rfl⟩, by simp⟩
    · rintro ⟨rfl, _, ⟨_, result, entries, ⟨rfl, turned⟩, each, rfl⟩, rfl⟩
      exact ⟨result, _, ⟨turned, rfl⟩, (ih distinct).mpr ⟨rfl, entries, each, by simp⟩⟩

/-- The results are found by the names of the modules. -/
theorem lookup_eq_some_iff_turn (distinct : (order.map Module.name).Nodup) {entries : List (String × Module)}
    (each : List.Forall₂ (fun module entry => entry.1 = module.name ∧
      plan.turn circuit order module = .ok entry.2) order entries)
    (member : module ∈ order) {result : Module} :
    entries.reverse.lookup module.name = some result ↔ plan.turn circuit order module = .ok result := by
  have listed : ∀ found, (module.name, found) ∈ entries.reverse ↔
      plan.turn circuit order module = .ok found := by
    intro found
    rw [List.mem_reverse]
    constructor
    · intro inside
      obtain ⟨other, otherMember, named, turned⟩ := exists_of_mem_right each inside
      obtain rfl := List.inj_on_of_nodup_map distinct member otherMember named
      exact turned
    · intro turned
      obtain ⟨⟨name, other⟩, inside, named, otherTurned⟩ := exists_of_mem_left each member
      obtain rfl : name = module.name := named
      obtain rfl : other = found := Except.ok.inj (otherTurned.symm.trans turned)
      exact inside
  rw [lookup_eq_some_iff_mem, listed]
  intro first second isFirst isSecond
  exact Except.ok.inj (((listed first).mp isFirst).symm.trans ((listed second).mp isSecond))

/-- What is found under the names of the modules, once all had their turns, is what the turns left. -/
theorem mapM_seek_eq_turns (distinct : (order.map Module.name).Nodup) (all : order.Perm circuit.modules)
    {entries : List (String × Module)} (each : List.Forall₂ (fun module entry => entry.1 = module.name ∧
      plan.turn circuit order module = .ok entry.2) order entries) {seek : Module → Except Fault Module}
    (finds : ∀ module result, entries.reverse.lookup module.name = some result → seek module = .ok result) :
    circuit.modules.mapM seek = circuit.modules.mapM (plan.turn circuit order) := by
  refine mapM_congr fun module member => ?_
  have placed := all.mem_iff.mpr member
  obtain ⟨entry, _, _, turned⟩ := exists_of_mem_left each placed
  rw [finds _ _ ((plan.lookup_eq_some_iff_turn distinct each placed).mpr turned), turned]

/-- A renamed circuit has the modules of the circuit in their places, each as its turn left it. -/
theorem renameCircuit_eq_ok_turns {orderOf : Circuit → Except Fault (List Module)}
    (asked : orderOf circuit = .ok order) (distinct : (order.map Module.name).Nodup)
    (all : order.Perm circuit.modules) {out : Circuit} {renames : Ledger} :
    plan.renameCircuit orderOf circuit = .ok (out, renames) ↔
      out.main = (plan.rename .circuit (.circuit circuit.main) (.start circuit)).1 ∧
      renames = (plan.sweep circuit order).renames ∧
      List.Forall₂ (fun module result => plan.turn circuit order module = .ok result) circuit.modules
        out.modules := by
  have started : plan.rename .circuit (.circuit circuit.main) (.start circuit) =
      ((plan.rename .circuit (.circuit circuit.main) (.start circuit)).1, plan.sweep circuit []) := rfl
  have step := fun renamed finished => @renameModules_eq_ok circuit [] order plan distinct [] renamed finished
  simp only [List.nil_append, List.append_nil] at step
  rw [renameCircuit, started]
  constructor
  · intro run
    obtain ⟨sameOrder, givesOrder, run⟩ := bind_eq_ok.mp run
    obtain rfl := Except.ok.inj (asked.symm.trans givesOrder)
    obtain ⟨⟨renamed, finished⟩, run_modules, run⟩ := bind_eq_ok.mp run
    obtain ⟨modules, found, result⟩ := bind_eq_ok.mp run
    obtain ⟨rfl, entries, each, rfl⟩ := (step renamed finished).mp run_modules
    obtain ⟨rfl, rfl⟩ := Prod.mk.inj (Except.ok.inj result)
    rw [plan.mapM_seek_eq_turns distinct all each fun module result atName => by rw [atName]] at found
    exact ⟨rfl, rfl, mapM_eq_ok.mp found⟩
  · rintro ⟨sameMain, rfl, turned⟩
    obtain ⟨entries, each⟩ := exists_forall₂ fun module (member : module ∈ order) => by
      obtain ⟨result, _, gave⟩ := exists_of_mem_left turned (all.mem_iff.mp member)
      exact (⟨(module.name, result), rfl, gave⟩ : ∃ entry : String × Module, entry.1 = module.name ∧
        plan.turn circuit order module = .ok entry.2)
    refine bind_eq_ok.mpr ⟨order, asked, bind_eq_ok.mpr ⟨_, (step _ _).mpr ⟨rfl, entries, each, rfl⟩, ?_⟩⟩
    refine bind_eq_ok.mpr ⟨out.modules, ?_, ?_⟩
    · rw [plan.mapM_seek_eq_turns distinct all each fun module result atName => by rw [atName]]
      exact mapM_eq_ok.mpr turned
    · rw [← sameMain]
      rfl

/-- All that can fail in a circuit that has been put in order is a turn. -/
theorem renameCircuit_total_iff_turns {orderOf : Circuit → Except Fault (List Module)}
    (asked : orderOf circuit = .ok order) (distinct : (order.map Module.name).Nodup)
    (all : order.Perm circuit.modules) :
    (∃ result, plan.renameCircuit orderOf circuit = .ok result) ↔
      ∀ module ∈ circuit.modules, ∃ result, plan.turn circuit order module = .ok result := by
  constructor
  · rintro ⟨⟨out, renames⟩, run⟩ module member
    obtain ⟨-, -, turned⟩ := (plan.renameCircuit_eq_ok_turns asked distinct all).mp run
    obtain ⟨result, -, gave⟩ := exists_of_mem_left turned member
    exact ⟨result, gave⟩
  · intro turned
    obtain ⟨results, each⟩ := exists_forall₂ turned
    exact ⟨(⟨_, results⟩, _), (plan.renameCircuit_eq_ok_turns asked distinct all).mpr ⟨rfl, rfl, each⟩⟩

end Plan

end CircuitNames
