import CircuitNames.Proofs.DecodedCircuits
import CircuitNames.Proofs.ModuleOrder
import Mathlib.Logic.Relation

namespace CircuitNames

open Relation

namespace Stmt

/-- A statement stands directly in another one. -/
inductive Holds : Stmt → Stmt → Prop
  | body {cond : Expr} {body otherwise : List Stmt} {part : Stmt} (inside : part ∈ body) :
      Holds (.when cond body otherwise) part
  | otherwise {cond : Expr} {body otherwise : List Stmt} {part : Stmt} (inside : part ∈ otherwise) :
      Holds (.when cond body otherwise) part
  | block {body : List Stmt} {part : Stmt} (inside : part ∈ body) : Holds (.block body) part

theorem mem_walkAll {stmts : List Stmt} {part : Stmt} :
    part ∈ walkAll stmts ↔ ∃ stmt ∈ stmts, part ∈ walk stmt := by
  induction stmts with
  | nil => simp [walkAll]
  | cons stmt rest ih => simp [walkAll, ih]

theorem mem_walk_self (stmt : Stmt) : stmt ∈ walk stmt := by
  cases stmt <;> simp [walk]

theorem mem_walk_of_holds {outer stmt part : Stmt} (holds : outer.Holds stmt) (inside : part ∈ walk stmt) :
    part ∈ walk outer := by
  cases holds with
  | body member => simp [walk, mem_walkAll.mpr ⟨stmt, member, inside⟩]
  | otherwise member => simp [walk, mem_walkAll.mpr ⟨stmt, member, inside⟩]
  | block member => simp [walk, mem_walkAll.mpr ⟨stmt, member, inside⟩]

mutual

/-- What the walk comes to is held by the statement, directly or through others. -/
theorem stands_of_mem_walk {part : Stmt} : ∀ stmt : Stmt, part ∈ walk stmt → ReflTransGen Holds stmt part
  | .when cond body otherwise, inside => by
    rw [walk, List.mem_cons, List.mem_append] at inside
    rcases inside with rfl | inBody | inOtherwise
    · exact .refl
    · obtain ⟨stmt, member, stands⟩ := stands_of_mem_walkAll body inBody
      exact stands.head (.body member)
    · obtain ⟨stmt, member, stands⟩ := stands_of_mem_walkAll otherwise inOtherwise
      exact stands.head (.otherwise member)
  | .block body, inside => by
    rw [walk, List.mem_cons] at inside
    rcases inside with rfl | inBody
    · exact .refl
    · obtain ⟨stmt, member, stands⟩ := stands_of_mem_walkAll body inBody
      exact stands.head (.block member)
  | .wire .., inside | .reg .., inside | .node .., inside | .inst .., inside | .mem _, inside
  | .connect .., inside | .invalidate _, inside | .stop .., inside | .print .., inside | .skip, inside =>
    List.mem_singleton.mp inside ▸ .refl

theorem stands_of_mem_walkAll {part : Stmt} : ∀ stmts : List Stmt, part ∈ walkAll stmts →
    ∃ stmt ∈ stmts, ReflTransGen Holds stmt part
  | [], inside => nomatch inside
  | stmt :: rest, inside => by
    rw [walkAll, List.mem_append] at inside
    rcases inside with first | later
    · exact ⟨stmt, List.mem_cons_self, stands_of_mem_walk stmt first⟩
    · obtain ⟨other, member, stands⟩ := stands_of_mem_walkAll rest later
      exact ⟨other, List.mem_cons_of_mem _ member, stands⟩

end

/-- The statements of a walk are those that stand in the statement, at any depth. -/
theorem mem_walk_iff {stmt part : Stmt} : part ∈ walk stmt ↔ ReflTransGen Holds stmt part := by
  refine ⟨stands_of_mem_walk stmt, fun stands => ?_⟩
  induction stands using ReflTransGen.head_induction_on with
  | refl => exact mem_walk_self part
  | head holds _ ih => exact mem_walk_of_holds holds ih

end Stmt

/-- Somewhere in its statements, at any depth, a module declares an instance. -/
inductive Module.Declares : Module → InstanceEdge → Prop
  | inst {module : RegularModule} {outer : Stmt} {edge : InstanceEdge} (outermost : outer ∈ module.body)
      (stands : ReflTransGen Stmt.Holds outer (.inst edge.inst edge.module)) : Declares (.regular module) edge

/-- An instance is found wherever in the module it is declared, at any depth. -/
theorem Module.mem_instances_iff {module : Module} {edge : InstanceEdge} :
    edge ∈ module.instances ↔ module.Declares edge := by
  cases module with
  | external module => exact iff_of_false List.not_mem_nil (fun declares => nomatch declares)
  | regular module =>
    simp only [instances, List.mem_filterMap, Stmt.mem_walkAll, Stmt.mem_walk_iff]
    constructor
    · rintro ⟨part, ⟨outer, outermost, stands⟩, isEdge⟩
      cases part <;> simp only [Stmt.edge?, reduceCtorEq, Option.some.injEq] at isEdge
      obtain rfl := isEdge
      exact .inst outermost stands
    · rintro ⟨outermost, stands⟩
      exact ⟨_, ⟨_, outermost, stands⟩, rfl⟩

namespace Circuit

variable {circuit : Circuit}

/-- Somewhere in its statements, at any depth, a module instantiates another one of the circuit. -/
inductive Calls (circuit : Circuit) : Module → Module → Prop
  | inst {module : RegularModule} {outer : Stmt} {name : String} {callee : Module}
      (outermost : outer ∈ module.body)
      (stands : ReflTransGen Stmt.Holds outer (.inst name callee.name)) (member : callee ∈ circuit.modules) :
      Calls circuit (.regular module) callee

theorem calls_iff {module callee : Module} :
    circuit.Calls module callee ↔
      callee ∈ circuit.modules ∧ ∃ edge ∈ module.instances, edge.module = callee.name := by
  simp only [Module.mem_instances_iff]
  constructor
  · rintro ⟨outermost, stands, member⟩
    exact ⟨member, ⟨_, callee.name⟩, .inst outermost stands, rfl⟩
  · rintro ⟨member, ⟨name, _⟩, ⟨outermost, stands⟩, rfl⟩
    exact .inst outermost stands member

end Circuit

namespace Hierarchy

variable {circuit : Circuit}

/-- In an order every module comes after all that it instantiates, directly or through others. -/
theorem Ordered.below_before {order : List Module} (ordered : Ordered circuit order)
    (distinct : (circuit.modules.map Module.name).Nodup) {before after : List Module} {module callee : Module}
    (splits : order = before ++ module :: after) (below : TransGen circuit.Calls module callee) :
    callee ∈ before := by
  have direct {before after : List Module} {caller callee : Module}
      (splits : order = before ++ caller :: after)
      (calls : circuit.Calls caller callee) : callee ∈ before := by
    obtain ⟨member, edge, isInstance, named⟩ := Circuit.calls_iff.mp calls
    obtain ⟨other, placed, same⟩ := List.mem_map.mp (ordered.callee_before splits edge isInstance)
    have isModule := ordered.members other (splits ▸ List.mem_append_left _ placed)
    exact List.inj_on_of_nodup_map distinct isModule member (same.trans named) ▸ placed
  induction below with
  | single calls => exact direct splits calls
  | tail _ calls ih =>
    obtain ⟨early, late, rfl⟩ := List.append_of_mem ih
    have inEarly := direct (splits.trans (List.append_assoc _ _ _)) calls
    exact List.mem_append_left _ inEarly

/-- What a run through instances adds lies below the modules that they lead to, if each visit adds only what
lies below the module it is at. -/
theorem descend_reaches {path : List String} {holder : Module}
    (each : ∀ {module : Module} {member : module ∈ circuit.modules} {order result : List Module},
      visit circuit path module member order = .ok result →
      ∀ other ∈ result, other ∈ order ∨ ReflTransGen circuit.Calls module other)
    {edges : List InstanceEdge} (instances : ∀ edge ∈ edges, edge ∈ holder.instances)
    {order result : List Module} (run : edges.foldlM (descend circuit path holder) order = .ok result) :
    ∀ other ∈ result, other ∈ order ∨ TransGen circuit.Calls holder other := by
  induction edges generalizing order with
  | nil =>
    obtain rfl : order = result := Except.ok.inj run
    exact fun other inside => Or.inl inside
  | cons edge rest ih =>
    rw [List.foldlM_cons] at run
    obtain ⟨between, first, later⟩ := bind_eq_ok.mp run
    obtain ⟨child, member, named, visited⟩ := descend_eq_ok first
    obtain ⟨isInstance, restInstances⟩ := List.forall_mem_cons.mp instances
    have calls : circuit.Calls holder child := Circuit.calls_iff.mpr ⟨member, edge, isInstance, named.symm⟩
    intro other inside
    rcases ih restInstances later other inside with old | below
    · exact (each visited other old).imp_right (TransGen.head' calls)
    · exact Or.inr below

/-- A visit adds only the module it is at and what lies below that. -/
theorem visit_reaches {path : List String} {module : Module} {member : module ∈ circuit.modules}
    {order result : List Module} (run : visit circuit path module member order = .ok result) :
    ∀ other ∈ result, other ∈ order ∨ ReflTransGen circuit.Calls module other := by
  rcases visit_cases run with ⟨-, rfl⟩ | ⟨-, offPath, below, descended, rfl⟩
  · exact fun other inside => Or.inl inside
  · have closer := offPath_length_lt member offPath
    have reached :=
      descend_reaches (fun visited => visit_reaches visited) (fun _ isInstance => isInstance) descended
    intro other inside
    rcases List.mem_append.mp inside with added | last
    · exact (reached other added).imp_right TransGen.to_reflTransGen
    · exact Or.inr (List.mem_singleton.mp last ▸ .refl)
termination_by (offPath circuit.modules path).length

/-- What a visit adds to an order: nothing where the module is in it. Otherwise all that is missing below the
module, and then the module. -/
inductive Adds (circuit : Circuit) (module : Module) (order : List Module) : List Module → Prop
  | nothing (placed : module ∈ order) : Adds circuit module order order
  | missing {below : List Module} (fresh : module ∉ order)
      (exactly : ∀ other, other ∈ below ↔ TransGen circuit.Calls module other ∧ other ∉ order) :
      Adds circuit module order (order ++ (below ++ [module]))

/-- A visit adds what lies below the module and is still missing, and then the module itself. -/
theorem visit_adds (distinct : (circuit.modules.map Module.name).Nodup) {path : List String} {module : Module}
    {member : module ∈ circuit.modules} {order result : List Module} (ordered : Ordered circuit order)
    (run : visit circuit path module member order = .ok result) : Adds circuit module order result := by
  rcases visit_cases run with ⟨present, rfl⟩ | ⟨absent, -, below, descended, rfl⟩
  · obtain ⟨other, placed, same⟩ := List.mem_map.mp present
    exact .nothing (List.inj_on_of_nodup_map distinct (ordered.members other placed) member same ▸ placed)
  · obtain ⟨⟨-, added, rfl, -⟩, -⟩ := descend_extends (fun visited => visit_extends visited) ordered descended
    have whole := (visit_extends run ordered).1.ordered
    rw [List.append_assoc]
    refine .missing (fun placed => absent (List.mem_map_of_mem placed)) fun other => ⟨fun inside => ?_, ?_⟩
    -- What was added is new, so it was reached from the module.
    · have once := List.Nodup.of_map Module.name (whole.left rfl).nodup
      have apart : other ∉ order := fun old => (List.nodup_append'.mp once).2.2 old inside
      have reached :=
        descend_reaches (fun visited => visit_reaches visited) (fun _ isInstance => isInstance) descended
      exact ⟨(reached other (List.mem_append_right _ inside)).resolve_left apart, apart⟩
    · rintro ⟨lower, apart⟩
      have placed := whole.below_before distinct rfl lower
      exact (List.mem_append.mp placed).resolve_left apart

/-- One module after the other adds to the order what is missing below it and then itself. -/
inductive InTurn (circuit : Circuit) : List Module → List Module → List Module → Prop
  | nil {order : List Module} : InTurn circuit order [] order
  | cons {order between result : List Module} {module : Module} {rest : List Module}
      (first : Adds circuit module order between) (later : InTurn circuit between rest result) :
      InTurn circuit order (module :: rest) result

/-- The visits that are left over take the modules as they are declared, with what is still missing below each
of them before it. -/
theorem visits_inTurn (distinct : (circuit.modules.map Module.name).Nodup)
    {modules : List (Subtype (· ∈ circuit.modules))} {order result : List Module}
    (ordered : Ordered circuit order)
    (run : modules.foldlM (fun order module => visit circuit [] module.1 module.2 order) order = .ok result) :
    InTurn circuit order (modules.map Subtype.val) result := by
  induction modules generalizing order with
  | nil =>
    obtain rfl : order = result := Except.ok.inj run
    exact .nil
  | cons module rest ih =>
    rw [List.foldlM_cons] at run
    obtain ⟨between, first, later⟩ := bind_eq_ok.mp run
    exact .cons (visit_adds distinct ordered first) (ih (visit_extends first ordered).1.ordered later)

end Hierarchy

open Hierarchy

/-- The order from the leaves to the root has each module once, and every module after all that it
instantiates, directly or through others. It begins with exactly the modules that can be reached from the main
module, which comes last among them. The others follow in the turn in which they are declared, each after what
was still missing below it. -/
theorem Circuit.leafToRoot_layout {circuit : Circuit} {order : List Module}
    (ordered : circuit.leafToRoot = .ok order) :
    order.Perm circuit.modules ∧ (order.map Module.name).Nodup ∧
    (∀ before module after, order = before ++ module :: after →
      ∀ callee, TransGen circuit.Calls module callee → callee ∈ before) ∧
    ∃ main ∈ circuit.modules, main.name = circuit.main ∧ ∃ below rest, order = below ++ [main] ++ rest ∧
      (∀ module, module ∈ below ++ [main] ↔ ReflTransGen circuit.Calls main module) ∧
      InTurn circuit (below ++ [main]) circuit.modules order := by
  obtain ⟨distinct, -, whole, -⟩ := leafToRoot_spec ordered
  refine ⟨leafToRoot_perm ordered, whole.nodup, fun before module after splits callee => ?_, ?_⟩
  · exact whole.below_before distinct splits
  · unfold leafToRoot at ordered
    obtain ⟨_, -, ordered⟩ := bind_eq_ok.mp ordered
    split at ordered
    · cases ordered
    · rename_i main found
      obtain ⟨start, visited, ordered⟩ := bind_eq_ok.mp ordered
      have extension := (visit_extends visited .nil).1
      obtain ⟨rest, splits, -⟩ := (visits_extend extension.ordered ordered).1.added
      have turns := visits_inTurn distinct extension.ordered ordered
      rw [List.attach_map_subtype_val] at turns
      cases visit_adds distinct .nil visited with
      | nothing placed => exact absurd placed List.not_mem_nil
      | @missing below fresh exactly =>
        refine ⟨main, mem_of_find? found, name_of_find? found, below, rest, splits, fun module => ?_, turns⟩
        rw [List.mem_append, exactly, List.mem_singleton, reflTransGen_iff_eq_or_transGen]
        simp [or_comm]

namespace Circuit.Sample

def probe : RegularModule := ⟨"Probe", [], []⟩

def bench : RegularModule := ⟨"Bench", [], [.inst "U" "Sub", .block [.inst "P" "Probe"]]⟩

/-- A circuit with two modules that its main module does not reach, one of which instantiates the other. -/
def withBench : Circuit := ⟨"Top", .regular bench :: .regular probe :: circuit.modules⟩

theorem withBench_ordered :
    withBench.leafToRoot =
      .ok [.regular sub, .external ext, .regular top, .regular probe, .regular bench] := by cbv

end Circuit.Sample

open Circuit in
theorem Circuit.leafToRoot_sample_layout : ∃ main below rest,
    Sample.withBench.leafToRoot = .ok (below ++ [main] ++ rest) ∧ main.name = "Top" ∧
      (∀ module, module ∈ below ++ [main] ↔ ReflTransGen Sample.withBench.Calls main module) ∧
      InTurn Sample.withBench (below ++ [main]) Sample.withBench.modules (below ++ [main] ++ rest) := by
  obtain ⟨-, -, -, main, -, named, below, rest, splits, reached, turns⟩ :=
    leafToRoot_layout Sample.withBench_ordered
  exact ⟨main, below, rest, splits ▸ Sample.withBench_ordered, named, reached, splits ▸ turns⟩

end CircuitNames
