import CircuitNames.Proofs.ModuleLayout
import CircuitNames.Proofs.ModuleRanks
import Mathlib.Data.List.Duplicate

namespace CircuitNames

/-- A computation fails in a certain way just when a condition holds, if each of its faults tells whether it
holds and it has no result where it does. -/
theorem fails_with_iff {ε α : Type} {x : Except ε α} {way : ε → Prop} {condition : Prop}
    (tells : ∀ fault, x = .error fault → (way fault ↔ condition)) (prevents : ∀ a, x = .ok a → ¬condition) :
    (∃ fault, x = .error fault ∧ way fault) ↔ condition := by
  cases x with
  | ok a => simp [prevents a rfl]
  | error fault => simp [tells fault rfl]

open Relation

namespace Circuit

/-- What is wrong with a circuit whose modules cannot be put in order, and the fault that tells it. -/
inductive Unorderable (circuit : Circuit) : Fault → Prop
  | repeated {name : String} (twice : List.Duplicate name (circuit.modules.map Module.name)) :
      Unorderable circuit (.duplicateModule circuit.main name)
  | noMain (distinct : (circuit.modules.map Module.name).Nodup)
      (missing : circuit.main ∉ circuit.modules.map Module.name) :
      Unorderable circuit (.noMainModule circuit.main)
  | undeclared (distinct : (circuit.modules.map Module.name).Nodup)
      (hasMain : circuit.main ∈ circuit.modules.map Module.name)
      {home : Module} {edge : InstanceEdge} (member : home ∈ circuit.modules) (declares : home.Declares edge)
      (missing : edge.module ∉ circuit.modules.map Module.name) :
      Unorderable circuit (.undeclaredModule edge.inst home.name edge.module)
  | cycle (distinct : (circuit.modules.map Module.name).Nodup)
      (hasMain : circuit.main ∈ circuit.modules.map Module.name)
      {first : Module} {rest : List Module} (simple : (first :: rest).Nodup)
      (closed : List.IsChain circuit.Calls (first :: rest ++ [first])) :
      Unorderable circuit (.instanceCycle circuit.main ((first :: rest ++ [first]).map Module.name))

end Circuit

namespace Hierarchy

variable {circuit : Circuit}

theorem firstRepeated_eq_some {seen names : List String} {name : String}
    (found : firstRepeated seen names = some name) :
    name ∈ names ∧ (name ∈ seen ∨ List.Duplicate name names) := by
  induction names generalizing seen with
  | nil => cases found
  | cons other rest ih =>
    unfold firstRepeated at found
    split at found
    next repeated =>
      obtain rfl := Option.some.inj found
      exact ⟨List.mem_cons_self, Or.inl (by simpa using repeated)⟩
    next =>
      obtain ⟨later, earlier | twice⟩ := ih found
      · refine ⟨List.mem_cons_of_mem _ later, ?_⟩
        rcases List.mem_cons.mp earlier with rfl | old
        · exact Or.inr (List.Mem.duplicate_cons_self later)
        · exact Or.inl old
      · exact ⟨List.mem_cons_of_mem _ later, Or.inr (twice.duplicate_cons _)⟩

/-- The modules on the way to a module that is visited: each instantiates the next one, and the last one that
module. -/
structure Trail (circuit : Circuit) (above : List Module) (module : Module) : Prop where
  members : ∀ other ∈ above, other ∈ circuit.modules
  simple : above.Nodup
  calls : List.IsChain circuit.Calls (above ++ [module])

theorem Trail.start (module : Module) : Trail circuit [] module :=
  ⟨List.forall_mem_nil _, List.nodup_nil, .singleton _⟩

theorem Trail.next {above : List Module} {module child : Module} (trail : Trail circuit above module)
    (member : module ∈ circuit.modules) (fresh : module ∉ above) (calls : circuit.Calls module child) :
    Trail circuit (above ++ [module]) child where
  members := List.forall_mem_append.mpr ⟨trail.members, List.forall_mem_singleton.mpr member⟩
  simple := List.nodup_append'.mpr ⟨trail.simple, List.nodup_singleton _, List.disjoint_singleton.mpr fresh⟩
  calls := by
    rw [List.append_assoc, List.singleton_append]
    exact List.isChain_split.mpr ⟨trail.calls, List.isChain_pair.mpr calls⟩

/-- A trail that comes back to one of its modules goes around from there. -/
theorem Trail.closes {before after : List Module} {module : Module}
    (trail : Trail circuit (before ++ module :: after) module) :
    (module :: after).Nodup ∧ List.IsChain circuit.Calls (module :: after ++ [module]) := by
  have whole := trail.calls
  rw [List.append_assoc] at whole
  exact ⟨(List.nodup_append'.mp trail.simple).2.1, whole.right_of_append⟩

/-- The names on a trail that comes back to one of its modules, cut before that module, go around as well. -/
theorem Trail.path_from (distinct : (circuit.modules.map Module.name).Nodup) {before after : List Module}
    {module : Module} (member : module ∈ circuit.modules)
    (trail : Trail circuit (before ++ module :: after) module) :
    ((before ++ module :: after).map Module.name).dropWhile (· != module.name) =
      (module :: after).map Module.name := by
  have apart : ∀ name ∈ before.map Module.name, (name != module.name) = true := by
    intro name earlier
    obtain ⟨early, isEarly, rfl⟩ := List.mem_map.mp earlier
    refine bne_iff_ne.mpr fun same => ?_
    have isMember := trail.members early (List.mem_append_left _ isEarly)
    obtain rfl := List.inj_on_of_nodup_map distinct isMember member same
    exact (List.nodup_append'.mp trail.simple).2.2 isEarly List.mem_cons_self
  rw [List.map_append, List.dropWhile_append_of_pos apart, List.map_cons,
    List.dropWhile_cons_of_neg (by simp)]

/-- A visit that fails has met an instance of a module that is declared nowhere, or a module of its own
trail. -/
theorem visit_unorderable (distinct : (circuit.modules.map Module.name).Nodup)
    (hasMain : circuit.main ∈ circuit.modules.map Module.name) {above : List Module} {path : List String}
    (names : above.map Module.name = path) {module : Module} (trail : Trail circuit above module)
    {member : module ∈ circuit.modules} {order : List Module} {fault : Fault}
    (run : visit circuit path module member order = .error fault) : circuit.Unorderable fault := by
  rw [visit] at run
  split at run
  · cases run
  · split at run
    · rename_i onPath
      obtain ⟨other, inside, named⟩ := List.mem_map.mp (names ▸ onPath)
      obtain rfl := List.inj_on_of_nodup_map distinct (trail.members other inside) member named
      obtain ⟨before, after, rfl⟩ := List.append_of_mem inside
      obtain ⟨simple, closed⟩ := trail.closes
      rw [← names, trail.path_from distinct member] at run
      obtain rfl := Except.error.inj run
      rw [← List.map_singleton, ← List.map_append]
      exact .cycle distinct hasMain simple closed
    · rename_i offPath
      have closer := offPath_length_lt member offPath
      obtain ⟨edge, isInstance, state, failed⟩ : ∃ edge ∈ module.instances, ∃ state,
          descend circuit (path ++ [module.name]) module state edge = .error fault := by
        rcases bind_eq_error.mp run with stopped | ⟨below, -, placed⟩
        · obtain ⟨before, edge, after, state, splits, -, failed⟩ := foldlM_eq_error.mp stopped
          exact ⟨edge, splits ▸ List.mem_append_right _ List.mem_cons_self, state, failed⟩
        · cases placed
      unfold descend at failed
      split at failed
      · rename_i missing
        obtain rfl := Except.error.inj failed
        exact .undeclared distinct hasMain member (Module.mem_instances_iff.mp isInstance)
          (find?_eq_none_iff.mp missing)
      · rename_i child found
        have calls : circuit.Calls module child :=
          Circuit.calls_iff.mpr ⟨mem_of_find? found, edge, isInstance, (name_of_find? found).symm⟩
        have fresh : module ∉ above := fun inside => offPath (names ▸ List.mem_map_of_mem inside)
        -- The recursion ends as there are ever fewer modules off the path; the trail grows along with it.
        exact visit_unorderable distinct hasMain (by rw [List.map_append, names, List.map_singleton])
          (trail.next member fresh calls) failed
termination_by (offPath circuit.modules path).length

/-- A trail that comes back to where it began is a cycle. -/
theorem transGen_of_closed {first : Module} {rest : List Module}
    (closed : List.IsChain circuit.Calls (first :: rest ++ [first])) :
    TransGen circuit.Calls first first := by
  obtain ⟨next, more, ends⟩ := List.exists_cons_of_ne_nil (show rest ++ [first] ≠ [] by simp)
  rw [List.cons_append, ends, List.isChain_cons_cons] at closed
  have last : (next :: more).getLast (List.cons_ne_nil _ _) = first := by simp [← ends]
  exact TransGen.head' closed.1 (List.relationReflTransGen_of_exists_isChain_cons more closed.2 last)

end Hierarchy

namespace Circuit

open Hierarchy

variable {circuit : Circuit}

/-- Whatever keeps the modules from being put in order is there. -/
theorem leafToRoot_unorderable {fault : Fault} (run : circuit.leafToRoot = .error fault) :
    circuit.Unorderable fault := by
  unfold leafToRoot at run
  rcases bind_eq_error.mp run with repeated | ⟨_, unrepeated, run⟩
  · unfold checkDistinct at repeated
    split at repeated
    · rename_i found
      obtain rfl := Except.error.inj repeated
      exact .repeated ((firstRepeated_eq_some found).2.resolve_left List.not_mem_nil)
    · cases repeated
  · have distinct := checkDistinct_eq_ok.mp unrepeated
    split at run
    · rename_i missing
      obtain rfl := Except.error.inj run
      exact .noMain distinct (find?_eq_none_iff.mp missing)
    · rename_i main found
      have hasMain : circuit.main ∈ circuit.modules.map Module.name :=
        List.mem_map.mpr ⟨main, mem_of_find? found, name_of_find? found⟩
      rcases bind_eq_error.mp run with stopped | ⟨below, -, run⟩
      · exact visit_unorderable distinct hasMain rfl (.start main) stopped
      · obtain ⟨-, module, -, order, -, -, stopped⟩ := foldlM_eq_error.mp run
        exact visit_unorderable distinct hasMain rfl (.start module.1) stopped

/-- Some module has an instance of a module that is declared nowhere, or lies below itself. -/
def Broken (circuit : Circuit) : Prop :=
  (∃ module ∈ circuit.modules, ∃ edge, module.Declares edge ∧ edge.module ∉ circuit.modules.map Module.name) ∨
    ∃ module, TransGen circuit.Calls module module

theorem not_broken {order : List Module} (ordered : circuit.leafToRoot = .ok order) : ¬circuit.Broken := by
  obtain ⟨distinct, -, whole, all⟩ := leafToRoot_spec ordered
  rintro (⟨module, member, edge, declares, missing⟩ | ⟨module, below⟩)
  · obtain ⟨callee, placed, named⟩ :=
      whole.callee_mem (all module member) (Module.mem_instances_iff.mpr declares)
    exact missing (named ▸ List.mem_map_of_mem (whole.members callee placed))
  · obtain ⟨_, -, calls⟩ := TransGen.tail'_iff.mp below
    obtain ⟨before, after, rfl⟩ := List.append_of_mem (all module (calls_iff.mp calls).1)
    have once := List.Nodup.of_map Module.name whole.nodup
    exact (List.nodup_append'.mp once).2.2 (whole.below_before distinct rfl below) List.mem_cons_self

namespace Unorderable

variable {fault : Fault} (unorderable : circuit.Unorderable fault)
include unorderable

theorem repeated_iff : fault.code? = some .duplicateModule ↔ ¬(circuit.modules.map Module.name).Nodup := by
  cases unorderable with
  | repeated twice => exact iff_of_true rfl twice.not_nodup
  | noMain distinct | undeclared distinct | cycle distinct => exact iff_of_false nofun (not_not.mpr distinct)

theorem noMain_iff : fault.code? = some .noMainModule ↔
    (circuit.modules.map Module.name).Nodup ∧ circuit.main ∉ circuit.modules.map Module.name := by
  cases unorderable with
  | repeated twice => exact iff_of_false nofun fun both => twice.not_nodup both.1
  | noMain distinct missing => exact iff_of_true rfl ⟨distinct, missing⟩
  | undeclared _ hasMain | cycle _ hasMain => exact iff_of_false nofun fun both => both.2 hasMain

/-- An instance without a module or a cycle is reported where the names are distinct and there is a main
module. -/
theorem broken_iff : fault.code? = some .undeclaredModule ∨ fault.code? = some .instanceCycle ↔
    (circuit.modules.map Module.name).Nodup ∧ circuit.main ∈ circuit.modules.map Module.name ∧
      circuit.Broken := by
  cases unorderable with
  | repeated twice => exact iff_of_false nofun fun all => twice.not_nodup all.1
  | noMain _ missing => exact iff_of_false nofun fun all => missing all.2.1
  | undeclared distinct hasMain member declares missing =>
    exact iff_of_true (Or.inl rfl) ⟨distinct, hasMain, Or.inl ⟨_, member, _, declares, missing⟩⟩
  | cycle distinct hasMain _ closed =>
    exact iff_of_true (Or.inr rfl) ⟨distinct, hasMain, Or.inr ⟨_, transGen_of_closed closed⟩⟩

end Unorderable

/-- The order from the leaves to the root is there for every circuit, or the fault that says what is wrong
with it: two modules of one name, or else no main module, or else an instance of a module that is declared
nowhere or a cycle of instances, wherever in the circuit they are. The instance is one of the module it is
said to be in, and the cycle is one. -/
theorem leafToRoot_fails_iff (circuit : Circuit) :
    (∀ fault, circuit.leafToRoot = .error fault → circuit.Unorderable fault) ∧
    ((∃ fault, circuit.leafToRoot = .error fault ∧ fault.code? = some .duplicateModule) ↔
      ¬(circuit.modules.map Module.name).Nodup) ∧
    ((∃ fault, circuit.leafToRoot = .error fault ∧ fault.code? = some .noMainModule) ↔
      (circuit.modules.map Module.name).Nodup ∧ circuit.main ∉ circuit.modules.map Module.name) ∧
    ((∃ fault, circuit.leafToRoot = .error fault ∧
        (fault.code? = some .undeclaredModule ∨ fault.code? = some .instanceCycle)) ↔
      (circuit.modules.map Module.name).Nodup ∧ circuit.main ∈ circuit.modules.map Module.name ∧
        circuit.Broken) := by
  refine ⟨fun fault => leafToRoot_unorderable, ?_, ?_, ?_⟩
  · exact fails_with_iff (fun _ run => (leafToRoot_unorderable run).repeated_iff)
      fun _ ordered => not_not.mpr (leafToRoot_spec ordered).1
  · exact fails_with_iff (fun _ run => (leafToRoot_unorderable run).noMain_iff)
      fun _ ordered both => both.2 (leafToRoot_spec ordered).2.1
  · exact fails_with_iff (fun _ run => (leafToRoot_unorderable run).broken_iff) fun _ ordered all =>
      not_broken ordered all.2.2

namespace Sample

/-- Two modules that the main module does not reach, each of which instantiates the other. -/
def looped : Circuit :=
  ⟨"Top", [.regular ⟨"Top", [], []⟩, .regular ⟨"A", [], [.inst "b" "B"]⟩,
    .regular ⟨"B", [], [.block [.inst "a" "A"]]⟩]⟩

theorem looped_fails : looped.leafToRoot = .error (.instanceCycle "Top" ["A", "B", "A"]) := by cbv

end Sample

theorem leafToRoot_sample_fails :
    Sample.looped.Broken ∧ Sample.looped.Unorderable (.instanceCycle "Top" ["A", "B", "A"]) := by
  obtain ⟨unorderable, -, -, broken⟩ := leafToRoot_fails_iff Sample.looped
  exact ⟨(broken.mp ⟨_, Sample.looped_fails, Or.inr rfl⟩).2.2, unorderable _ Sample.looped_fails⟩

end Circuit

end CircuitNames
