import CircuitNames.Circuit.Hierarchy
import CircuitNames.Proofs.Binds
import Mathlib.Data.List.Nodup

namespace CircuitNames

namespace Hierarchy

/-- Orders of modules of a circuit in which no name repeats and each module comes after those it
instantiates. -/
inductive Ordered (circuit : Circuit) : List Module → Prop
  | nil : Ordered circuit []
  | snoc {order : List Module} {module : Module} (ordered : Ordered circuit order)
      (member : module ∈ circuit.modules) (fresh : module.name ∉ order.map Module.name)
      (below : ∀ edge ∈ module.instances, edge.module ∈ order.map Module.name) :
      Ordered circuit (order ++ [module])

namespace Ordered

variable {circuit : Circuit} {order : List Module}

theorem members (ordered : Ordered circuit order) : ∀ module ∈ order, module ∈ circuit.modules := by
  induction ordered with
  | nil => simp
  | snoc _ member _ _ ih =>
    intro module inside
    rcases List.mem_append.mp inside with old | last
    · exact ih module old
    · exact List.mem_singleton.mp last ▸ member

theorem nodup (ordered : Ordered circuit order) : (order.map Module.name).Nodup := by
  induction ordered with
  | nil => exact List.nodup_nil
  | snoc _ _ fresh _ ih =>
    rw [List.map_append, List.map_singleton]
    exact List.nodup_append'.mpr ⟨ih, List.nodup_singleton _, List.disjoint_singleton.mpr fresh⟩

/-- What a module of the order instantiates stands before it. -/
theorem callee_before (ordered : Ordered circuit order) {before after : List Module} {module : Module}
    (splits : order = before ++ module :: after) :
    ∀ edge ∈ module.instances, edge.module ∈ before.map Module.name := by
  induction ordered generalizing after with
  | nil => simp at splits
  | @snoc order last ordered member fresh below ih =>
    rcases List.eq_nil_or_concat after with rfl | ⟨rest, final, rfl⟩
    · obtain ⟨rfl, same⟩ := List.append_inj' splits rfl
      obtain rfl : last = module := by simpa using same
      exact below
    · have cut : order ++ [last] = (before ++ module :: rest) ++ [final] := by simpa using splits
      exact ih (List.append_inj' cut rfl).1

theorem callee_mem (ordered : Ordered circuit order) {module : Module} (member : module ∈ order)
    {edge : InstanceEdge} (isInstance : edge ∈ module.instances) :
    ∃ callee ∈ order, callee.name = edge.module := by
  obtain ⟨before, after, rfl⟩ := List.append_of_mem member
  obtain ⟨callee, inside, named⟩ := List.mem_map.mp (ordered.callee_before rfl edge isInstance)
  exact ⟨callee, List.mem_append_left _ inside, named⟩

/-- What an order begins with is an order. -/
theorem left (ordered : Ordered circuit order) {before after : List Module}
    (splits : order = before ++ after) :
    Ordered circuit before := by
  induction ordered generalizing after with
  | nil =>
    obtain ⟨rfl, -⟩ := List.append_eq_nil_iff.mp splits.symm
    exact .nil
  | @snoc order last ordered member fresh below ih =>
    rcases List.eq_nil_or_concat after with rfl | ⟨rest, final, rfl⟩
    · rw [List.append_nil] at splits
      exact splits ▸ ordered.snoc member fresh below
    · rw [List.concat_eq_append, ← List.append_assoc] at splits
      exact ih (List.append_inj' splits rfl).1

end Ordered

/-- What a visit adds to an order: modules that are not on the path, in such a way that the order stays
one and has the visited module. -/
structure Extends (circuit : Circuit) (path : List String) (order result : List Module) : Prop where
  ordered : Ordered circuit result
  added : ∃ added, result = order ++ added ∧ ∀ module ∈ added, module.name ∉ path

theorem Extends.mem_names {circuit : Circuit} {path : List String} {order result : List Module}
    (extension : Extends circuit path order result) {name : String} (inside : name ∈ order.map Module.name) :
    name ∈ result.map Module.name := by
  obtain ⟨added, rfl, -⟩ := extension.added
  rw [List.map_append]
  exact List.mem_append_left _ inside

theorem Extends.trans {circuit : Circuit} {path : List String} {order between result : List Module}
    (first : Extends circuit path order between) (second : Extends circuit path between result) :
    Extends circuit path order result where
  ordered := second.ordered
  added := by
    obtain ⟨early, rfl, offEarly⟩ := first.added
    obtain ⟨late, rfl, offLate⟩ := second.added
    refine ⟨early ++ late, List.append_assoc _ _ _, fun module inside => ?_⟩
    exact (List.mem_append.mp inside).elim (offEarly module) (offLate module)

theorem name_of_find? {modules : List Module} {name : String} {module : Module}
    (found : find? modules name = some module) : module.name = name := by
  simpa using List.find?_some found

theorem mem_names_iff_any {order : List Module} {name : String} :
    order.any (·.name == name) = true ↔ name ∈ order.map Module.name := by
  simp

/-- What a visit does: nothing where the order has the module already. Otherwise it goes through the instances
of the module, and then places it. -/
theorem visit_cases {circuit : Circuit} {path : List String} {module : Module}
    {member : module ∈ circuit.modules} {order result : List Module}
    (run : visit circuit path module member order = .ok result) :
    module.name ∈ order.map Module.name ∧ result = order ∨
      module.name ∉ order.map Module.name ∧ module.name ∉ path ∧ ∃ below,
        module.instances.foldlM (descend circuit (path ++ [module.name]) module) order = .ok below ∧
        result = below ++ [module] := by
  rw [visit] at run
  split at run
  · rename_i present
    exact Or.inl ⟨mem_names_iff_any.mp present, (Except.ok.inj run).symm⟩
  · rename_i absent
    split at run
    · cases run
    · rename_i offPath
      obtain ⟨below, descended, placed⟩ := bind_eq_ok.mp run
      exact Or.inr ⟨mt mem_names_iff_any.mpr absent, offPath, below, descended, (Except.ok.inj placed).symm⟩

/-- To descend into an instance is to visit the module that it instantiates. -/
theorem descend_eq_ok {circuit : Circuit} {path : List String} {holder : Module} {order result : List Module}
    {edge : InstanceEdge} (run : descend circuit path holder order edge = .ok result) :
    ∃ child, ∃ member : child ∈ circuit.modules, child.name = edge.module ∧
      visit circuit path child member order = .ok result := by
  unfold descend at run
  split at run
  · cases run
  · rename_i child found
    exact ⟨child, mem_of_find? found, name_of_find? found, run⟩

/-- Going through instances in turn, where each visit extends the order, extends it by all they lead to. -/
theorem descend_extends {circuit : Circuit} {path : List String} {holder : Module}
    (each : ∀ {module : Module} {member : module ∈ circuit.modules} {order result : List Module},
      visit circuit path module member order = .ok result → Ordered circuit order →
      Extends circuit path order result ∧ module.name ∈ result.map Module.name)
    {edges : List InstanceEdge} {order result : List Module} (ordered : Ordered circuit order)
    (run : edges.foldlM (descend circuit path holder) order = .ok result) :
    Extends circuit path order result ∧ ∀ edge ∈ edges, edge.module ∈ result.map Module.name := by
  induction edges generalizing order with
  | nil =>
    obtain rfl : order = result := Except.ok.inj run
    exact ⟨⟨ordered, [], by simp⟩, by simp⟩
  | cons edge rest ih =>
    rw [List.foldlM_cons] at run
    obtain ⟨between, first, later⟩ := bind_eq_ok.mp run
    obtain ⟨child, _, named, visited⟩ := descend_eq_ok first
    obtain ⟨extension, placed⟩ := each visited ordered
    obtain ⟨extensionRest, allRest⟩ := ih extension.ordered later
    refine ⟨extension.trans extensionRest, fun other inside => ?_⟩
    rcases List.mem_cons.mp inside with rfl | inside
    · exact extensionRest.mem_names (named ▸ placed)
    · exact allRest other inside

/-- A visit adds a module after everything below it. Below it nothing is added that is on the path, so
the module itself is not added twice. -/
theorem visit_extends {circuit : Circuit} {path : List String} {module : Module}
    {member : module ∈ circuit.modules} {order result : List Module}
    (run : visit circuit path module member order = .ok result) (ordered : Ordered circuit order) :
    Extends circuit path order result ∧ module.name ∈ result.map Module.name := by
  rcases visit_cases run with ⟨present, rfl⟩ | ⟨absent, offPath, below, descended, rfl⟩
  · exact ⟨⟨ordered, [], by simp⟩, present⟩
  · have closer := offPath_length_lt member offPath
    obtain ⟨⟨orderedBelow, added, rfl, offAdded⟩, allBelow⟩ :=
      descend_extends (fun visited => visit_extends visited) ordered descended
    have offBelow : ∀ other ∈ added, other.name ∉ path ∧ other.name ≠ module.name := by
      intro other inside
      simpa [not_or] using offAdded other inside
    have fresh : module.name ∉ (order ++ added).map Module.name := by
      intro again
      obtain ⟨other, inside, same⟩ := List.mem_map.mp again
      rcases List.mem_append.mp inside with old | new
      · exact absent (List.mem_map.mpr ⟨other, old, same⟩)
      · exact (offBelow other new).2 same
    refine ⟨⟨orderedBelow.snoc member fresh allBelow, added ++ [module], List.append_assoc _ _ _, ?_⟩,
      by simp⟩
    intro other inside
    rcases List.mem_append.mp inside with new | last
    · exact (offBelow other new).1
    · exact List.mem_singleton.mp last ▸ offPath
termination_by (offPath circuit.modules path).length

theorem firstRepeated_eq_none_iff {seen names : List String} :
    firstRepeated seen names = none ↔ names.Nodup ∧ ∀ name ∈ names, name ∉ seen := by
  induction names generalizing seen with
  | nil => simp [firstRepeated]
  | cons name rest ih =>
    unfold firstRepeated
    split
    next repeated =>
      have inSeen : name ∈ seen := by simpa using repeated
      exact iff_of_false (Option.some_ne_none name) fun ⟨_, fresh⟩ => fresh name List.mem_cons_self inSeen
    next unseen =>
      have fresh : name ∉ seen := by simpa using unseen
      simp only [ih, List.nodup_cons, List.mem_cons, forall_eq_or_imp, not_or]
      grind

end Hierarchy

namespace Circuit

open Hierarchy

theorem checkDistinct_eq_ok {circuit : Circuit} :
    circuit.checkDistinct = .ok () ↔ (circuit.modules.map Module.name).Nodup := by
  have unseen : firstRepeated [] (circuit.modules.map Module.name) = none ↔
      (circuit.modules.map Module.name).Nodup := by
    simp [firstRepeated_eq_none_iff]
  rw [← unseen, checkDistinct]
  cases firstRepeated [] (circuit.modules.map Module.name) <;> simp

/-- Visits one after another extend the order and leave it one from the leaves to the root. -/
theorem visits_extend {circuit : Circuit} {modules : List (Subtype (· ∈ circuit.modules))}
    {order result : List Module} (ordered : Ordered circuit order)
    (run : modules.foldlM (fun order module => visit circuit [] module.1 module.2 order) order = .ok result) :
    Extends circuit [] order result ∧ ∀ module ∈ modules, module.1.name ∈ result.map Module.name := by
  induction modules generalizing order with
  | nil =>
    obtain rfl : order = result := Except.ok.inj run
    exact ⟨⟨ordered, [], by simp⟩, by simp⟩
  | cons module rest ih =>
    rw [List.foldlM_cons] at run
    obtain ⟨between, first, later⟩ := bind_eq_ok.mp run
    obtain ⟨extension, visited⟩ := visit_extends first ordered
    obtain ⟨extensionRest, allRest⟩ := ih extension.ordered later
    refine ⟨extension.trans extensionRest, fun other inside => ?_⟩
    rcases List.mem_cons.mp inside with rfl | inside
    · exact extensionRest.mem_names visited
    · exact allRest other inside

/-- What the order from the leaves to the root comes to: the names of the modules are distinct, one of them
is the main module, and each module is in the order once, after those it instantiates. -/
theorem leafToRoot_spec {circuit : Circuit} {order : List Module} (ordered : circuit.leafToRoot = .ok order) :
    (circuit.modules.map Module.name).Nodup ∧ circuit.main ∈ circuit.modules.map Module.name ∧
      Ordered circuit order ∧ ∀ module ∈ circuit.modules, module ∈ order := by
  unfold leafToRoot at ordered
  obtain ⟨_, distinct, ordered⟩ := bind_eq_ok.mp ordered
  have nodup := checkDistinct_eq_ok.mp distinct
  split at ordered
  · cases ordered
  · rename_i main found
    obtain ⟨below, visited, ordered⟩ := bind_eq_ok.mp ordered
    obtain ⟨extension, -⟩ := visit_extends visited .nil
    obtain ⟨⟨whole, -⟩, all⟩ := visits_extend extension.ordered ordered
    have named := name_of_find? found
    refine ⟨nodup, List.mem_map.mpr ⟨main, mem_of_find? found, named⟩, whole, fun module inside => ?_⟩
    obtain ⟨other, placed, same⟩ := List.mem_map.mp (all ⟨module, inside⟩ (List.mem_attach _ _))
    exact List.inj_on_of_nodup_map nodup (whole.members other placed) inside same ▸ placed

/-- The order has exactly the modules of the circuit, each once. -/
theorem leafToRoot_perm {circuit : Circuit} {order : List Module} (ordered : circuit.leafToRoot = .ok order) :
    order.Perm circuit.modules := by
  obtain ⟨nodup, -, whole, all⟩ := leafToRoot_spec ordered
  have once := List.Nodup.of_map Module.name whole.nodup
  have distinct := List.Nodup.of_map Module.name nodup
  exact (List.perm_ext_iff_of_nodup once distinct).mpr fun module => ⟨whole.members module, all module⟩

end Circuit

end CircuitNames
