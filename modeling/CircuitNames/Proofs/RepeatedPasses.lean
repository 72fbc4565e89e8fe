import CircuitNames.Proofs.ComposedLedgers
import CircuitNames.Proofs.MainModule
import CircuitNames.Proofs.ModuleRanks
import CircuitNames.Proofs.PassResults
import CircuitNames.Proofs.Selections

namespace CircuitNames

/-- The rank of the module that a name is given to. -/
def Circuit.rankUnder (circuit : Circuit) (names : Target → String) (rank : String → Nat) (name : String) :
    Nat :=
  ((circuit.modules.find? fun module => names (.module (circuit.home module)) == name).map fun module =>
    rank module.name).getD 0

/-- A rank of the modules can be taken over to their new names, as long as these differ. -/
theorem Circuit.Separates.rankUnder_eq {circuit : Circuit} {names : Target → String}
    (apart : circuit.Separates names) (rank : String → Nat) {module : Module}
    (member : module ∈ circuit.modules) :
    circuit.rankUnder names rank (names (.module (circuit.home module))) = rank module.name := by
  cases found : circuit.modules.find? fun other =>
      names (.module (circuit.home other)) == names (.module (circuit.home module)) with
  | none => simpa using List.find?_eq_none.mp found module member
  | some other =>
    have same : names (.module (circuit.home other)) = names (.module (circuit.home module)) := by
      simpa using List.find?_some found
    obtain rfl := apart.modules other (List.mem_of_find?_eq_some found) module member same
    rw [rankUnder, found, Option.map_some, Option.getD_some]

/-- Modules that are renamed apart from each other keep their ranks. -/
theorem Renaming.ranks {names : Target → String} {circuit out : Circuit}
    (renamed : Renaming names circuit out) (apart : circuit.Separates names) {rank : String → Nat}
    (ranks : circuit.Ranks rank) :
    out.Ranks (circuit.rankUnder names rank) := by
  intro result isResult edge isInstance
  obtain ⟨module, member, named, each⟩ := exists_of_mem_right renamed.modules isResult
  obtain ⟨spot, atSpot⟩ := Module.exists_declarationAt? (Module.inst_mem_declarations.mpr isInstance)
  rw [each] at atSpot
  obtain ⟨declaration, atOwn, same⟩ := Option.map_eq_some_iff.mp atSpot
  cases declaration with
  | signal name => cases same
  | mem decl => cases same
  | inst name callee =>
    have isOwn : InstanceEdge.mk name callee ∈ module.instances :=
      Module.inst_mem_declarations.mp (Module.mem_of_declarationAt? atOwn)
    obtain ⟨isModule, lower⟩ := ranks module member _ isOwn
    obtain ⟨other, otherMember, rfl⟩ := List.mem_map.mp isModule
    obtain ⟨otherResult, otherIsResult, otherNamed, -⟩ := exists_of_mem_left renamed.modules otherMember
    have calleeName : edge.module = names (.module (circuit.home other)) := (Declaration.inst.inj same).2.symm
    constructor
    · rw [calleeName, ← otherNamed]
      exact List.mem_map_of_mem otherIsResult
    · rw [calleeName, named, apart.rankUnder_eq rank otherMember, apart.rankUnder_eq rank member]
      exact lower

/-- What a pass needs to run on a circuit with identifiers for names, distinct in each module: an order of the
modules, and uses that select from instances and memories. This takes a ledger that the renames of the pass
can be composed into. -/
theorem Pass.run_succeeds_iff {spec : RuleSpec} {circuit : Circuit} {ledger : Ledger} {skips : SkipSet}
    (identified : circuit.Identified) (distinct : circuit.LocallyDistinct)
    (unskipped : Pass.leavesAlone skips circuit = false)
    (composes : ∀ renames : Ledger, (spec.Proper → renames.Regular) →
      ∃ kept, ledger.compose renames = .ok kept) :
    (∃ result, (Pass.ofSpec spec).run circuit ledger skips = .ok result) ↔
      (∃ order, circuit.leafToRoot = .ok order) ∧ circuit.Selectable := by
  constructor
  · rintro ⟨⟨out, result⟩, run⟩
    obtain ⟨renames, changed, -⟩ := (Pass.run_eq_ok unskipped).mp run
    obtain ⟨order, ordered⟩ := Plan.renameCircuit_order changed
    have all := Circuit.leafToRoot_perm ordered
    exact ⟨⟨order, ordered⟩,
      Plan.selectable_of_renameCircuit _ (identified.ready distinct ordered) all ordered changed⟩
  · rintro ⟨⟨order, ordered⟩, selectable⟩
    have ready := identified.ready distinct ordered
    have all := Circuit.leafToRoot_perm ordered
    have succeeds := Plan.renameCircuit_succeeds_iff ⟨spec.rule, skips⟩ ready all ordered
    obtain ⟨⟨out, renames⟩, changed⟩ := succeeds.mpr selectable
    obtain ⟨kept, composed⟩ :=
      composes renames (RuleSpec.leaves_of_renameCircuit ready ordered changed).regular
    exact ⟨(out, kept), (Pass.run_eq_ok unskipped).mpr ⟨renames, changed, composed⟩⟩

/-- One of the modules of the circuit has its name. -/
def Circuit.HasMain (circuit : Circuit) : Prop := ∃ module ∈ circuit.modules, module.name = circuit.main

/-- A circuit that a pass has renamed lacks nothing for the next pass but, it may be, a main module. -/
theorem RuleSpec.Leaves.ordered_iff {spec : RuleSpec} {circuit out : Circuit} {ledger : Ledger}
    (left : spec.Leaves circuit out ledger) {order : List Module} (ordered : circuit.leafToRoot = .ok order) :
    (∃ order, out.leafToRoot = .ok order) ↔ out.HasMain := by
  obtain ⟨-, -, rank, ranks⟩ := Circuit.leafToRoot_succeeds_iff.mp ⟨order, ordered⟩
  have outRanks := left.renamed.ranks left.separates ranks
  rw [Circuit.leafToRoot_succeeds_iff, List.mem_map, and_iff_right left.distinct.modules]
  exact and_iff_left ⟨_, outRanks⟩

/-- A pass leaves no circuit without a main module, unless it is told to leave the main module as it is. -/
theorem Pass.run_leaves_main {spec : RuleSpec} {circuit out : Circuit} {ledger result : Ledger}
    {skips : SkipSet} (unskipped : skips.contains (.circuit circuit.main) = false)
    (mainUnskipped : skips.contains (.module ⟨circuit.main, circuit.main⟩) = false)
    (run : (Pass.ofSpec spec).run circuit ledger skips = .ok (out, result)) : out.HasMain := by
  obtain ⟨renames, changed, -⟩ := (Pass.run_eq_ok unskipped).mp run
  obtain ⟨order, asked⟩ := Plan.renameCircuit_order changed
  obtain ⟨-, hasMain, ordered, all⟩ := Circuit.leafToRoot_spec asked
  obtain ⟨main, isModule, isMain⟩ := List.mem_map.mp hasMain
  obtain ⟨before, after, rfl⟩ := List.append_of_mem (all main isModule)
  have keeps := Plan.renameCircuit_main spec.steady isMain ordered unskipped mainUnskipped asked changed
  by_cases kept : circuit.KeepsMain out
  · obtain ⟨place, _, renamed, -, -, atPlace, same⟩ := kept
    exact ⟨renamed, List.mem_of_getElem? atPlace, same⟩
  · -- the main module has lost its name to one that comes before it
    simp only [keeps, not_forall, not_not] at kept
    obtain ⟨place, module, renamed, -, -, atPlace, same⟩ := kept
    exact ⟨renamed, List.mem_of_getElem? atPlace, same⟩

/-- What a pass hands on to the next one, a circuit and the ledger it has written to. The circuit can be put
in order if it has a main module, and selects from instances and memories. As long as its names are
identifiers, nothing but a missing main module keeps a pass that skips nothing from running on it, on a ledger
of its own or on the one handed on. -/
structure RuleSpec.HandsOn (spec : RuleSpec) (out : Circuit) (ledger : Ledger) : Prop where
  ordered_iff : (∃ order, out.leafToRoot = .ok order) ↔ out.HasMain
  selectable : out.Selectable
  identified : spec.Proper → out.Identified
  runs_iff : out.Identified → ∀ next : RuleSpec,
    ((∃ again, (Pass.ofSpec next).run out .empty .empty = .ok again) ↔ out.HasMain)
  sharing_runs_iff : spec.Proper → ∀ next : RuleSpec, next.Proper →
    ((∃ again, (Pass.ofSpec next).run out ledger .empty = .ok again) ↔ out.HasMain)

/-- What comes out of a pass can go into the next one, if it has a main module. It has one whenever the pass
is not told to leave the main module as it is. -/
theorem Pass.run_hands_on {spec : RuleSpec} {circuit out : Circuit} {ledger : Ledger} {skips : SkipSet}
    (decoded : circuit.Decoded) (distinct : circuit.Distinct)
    (unskipped : skips.contains (.circuit circuit.main) = false)
    (run : (Pass.ofSpec spec).run circuit .empty skips = .ok (out, ledger)) :
    spec.HandsOn out ledger ∧
      (skips.contains (.module ⟨circuit.main, circuit.main⟩) = false → out.HasMain) := by
  have left := Pass.run_leaves decoded.identified distinct run
  obtain ⟨renames, changed, -⟩ := (Pass.run_eq_ok unskipped).mp run
  obtain ⟨order, ordered⟩ := Plan.renameCircuit_order changed
  have ready := decoded.ready distinct.inside ordered
  have selectable := Plan.renameCircuit_selectable _ ready (Circuit.leafToRoot_perm ordered) ordered changed
  have fit : ((∃ order, out.leafToRoot = .ok order) ∧ out.Selectable) ↔ out.HasMain := by
    rw [left.ordered_iff ordered, and_iff_left selectable]
  refine ⟨⟨left.ordered_iff ordered, selectable, left.identified, ?_, ?_⟩, fun mainUnskipped =>
    Pass.run_leaves_main unskipped mainUnskipped run⟩
  · intro identified next
    rw [← fit]
    refine Pass.run_succeeds_iff identified left.distinct.inside rfl fun renames _ => ?_
    exact ⟨renames, Ledger.compose_empty renames⟩
  · intro proper next alsoProper
    rw [← fit]
    refine Pass.run_succeeds_iff (left.identified proper) left.distinct.inside rfl fun renames regular => ?_
    exact ⟨_, (left.regular proper).compose_eq (regular alsoProper)⟩

open Circuit in
theorem Pass.run_sample_hands_on :
    ∃ out ledger, (Pass.ofSpec .lowerCase).run Sample.circuit .empty .empty = .ok (out, ledger) ∧
      ∀ next : RuleSpec, next.Proper → ∃ again, (Pass.ofSpec next).run out ledger .empty = .ok again := by
  have runs : ((Pass.ofSpec .lowerCase).run Sample.circuit .empty .empty).toOption.isSome = true := by
    decide +kernel
  obtain ⟨⟨out, ledger⟩, ran⟩ := Option.isSome_iff_exists.mp runs
  have run := toOption_eq_some.mp ran
  obtain ⟨handsOn, hasMain⟩ := Pass.run_hands_on Sample.decoded Sample.distinct rfl run
  exact ⟨out, ledger, run,
    fun next proper => (handsOn.sharing_runs_iff trivial next proper).mpr (hasMain rfl)⟩

/-- A pass succeeds, but another one fails on what it leaves. -/
def Pass.Blocks (first next : RuleSpec) (circuit : Circuit) (skips : SkipSet) : Prop :=
  ∃ out ledger, (Pass.ofSpec first).run circuit .empty skips = .ok (out, ledger) ∧
    ¬∃ again, (Pass.ofSpec next).run out .empty .empty = .ok again

theorem Pass.blocks_of_view {first next : RuleSpec} {circuit : Circuit} {skips : SkipSet}
    (view : ((Pass.ofSpec first).run circuit .empty skips).toOption.map (fun result =>
      ((Pass.ofSpec next).run result.1 .empty .empty).toOption.isSome) = some false) :
    Pass.Blocks first next circuit skips := by
  obtain ⟨⟨out, ledger⟩, ran, stopped⟩ := Option.map_eq_some_iff.mp view
  refine ⟨out, ledger, toOption_eq_some.mp ran, ?_⟩
  rintro ⟨again, runs⟩
  rw [toOption_eq_some.mpr runs] at stopped
  cases stopped

namespace Circuit.Blocked

def moduleValue (name : String) (ports body : List Json) : Json :=
  .object [("kind", .string "module"), ("name", .string name), ("ports", .array ports), ("body", .array body)]

def value (main : String) (modules : List Json) :
    Json := .object [("main", .string main), ("modules", .array modules)]

/-- The main module keeps its name, or there is none. -/
def single (name : String) : Circuit := ⟨"Top", [.regular ⟨name, [], []⟩]⟩

theorem main_decoded : (single "Top").Decoded := ⟨value "Top" [moduleValue "Top" [] []], by cbv⟩

theorem other_decoded : (single "Sub").Decoded := ⟨value "Top" [moduleValue "Sub" [] []], by cbv⟩

/-- A port that keeps its name, in a module that keeps its own, and another module that gets a name which
spells it. -/
def spelling : Circuit where
  main := "C"
  modules := [.regular ⟨"C", [], [.inst "i" "a", .inst "j" "b"]⟩,
    .regular ⟨"a", [⟨"b", .input, .uint none⟩], []⟩, .regular ⟨"b", [], []⟩]

theorem spelling_decoded : spelling.Decoded :=
  ⟨value "C" [moduleValue "C" [] [Sample.inst "i" "a", Sample.inst "j" "b"],
    moduleValue "a" [Sample.port "b"] [], moduleValue "b" [] []], by cbv⟩

end Circuit.Blocked

open Circuit in
/-- Where a pass cannot follow another one: the main module is skipped, or the circuit is that has none, or a
prefix is no identifier. -/
theorem Pass.run_blocks_next :
    (Blocked.single "Top").Decoded ∧ (Blocked.single "Top").Distinct ∧
      (∃ skips, SkipSet.parse ["~Top|Top"] = .ok skips ∧
      Pass.Blocks (.prepend "p_") .verilogKeywords (Blocked.single "Top") skips) ∧
    (Blocked.single "Sub").Decoded ∧ (Blocked.single "Sub").Distinct ∧
      (∃ skips, SkipSet.parse ["~Top"] = .ok skips ∧
      Pass.Blocks (.prepend "p_") .verilogKeywords (Blocked.single "Sub") skips) ∧
    Blocked.spelling.Decoded ∧ Blocked.spelling.Distinct ∧
      (∃ skips, SkipSet.parse ["~C|a", "~C|a>b"] = .ok skips ∧
      Pass.Blocks (.prepend "a>") (.keywords ["b"]) Blocked.spelling skips) := by
  refine ⟨Blocked.main_decoded, by decide, ⟨_, rfl, Pass.blocks_of_view ?_⟩,
    Blocked.other_decoded, by decide, ⟨_, rfl, Pass.blocks_of_view ?_⟩,
    Blocked.spelling_decoded, by decide, ⟨_, rfl, Pass.blocks_of_view ?_⟩⟩
  all_goals decide +kernel

end CircuitNames
