import CircuitNames.Proofs.ModuleOrder

namespace CircuitNames

/-- Ranks of the modules of a circuit: what a module instantiates is a module of the circuit, of a lower
rank. -/
def Circuit.Ranks (circuit : Circuit) (rank : String → Nat) : Prop :=
  ∀ module ∈ circuit.modules, ∀ edge ∈ module.instances,
    edge.module ∈ circuit.modules.map Module.name ∧ rank edge.module < rank module.name

namespace Hierarchy

variable {circuit : Circuit}

theorem find?_eq_none_iff {modules : List Module} {name : String} :
    find? modules name = none ↔ name ∉ modules.map Module.name := by
  simp [find?, List.find?_eq_none]

/-- Among ranked modules a visit goes down and never meets a module of its path, all of which lie above it. -/
theorem visit_total {rank : String → Nat} (ranks : circuit.Ranks rank) {path : List String} {module : Module}
    {member : module ∈ circuit.modules} (above : ∀ name ∈ path, rank module.name < rank name)
    (order : List Module) :
    ∃ result, visit circuit path module member order = .ok result := by
  rw [visit]
  split
  · exact ⟨order, rfl⟩
  · split
    · rename_i onPath
      exact absurd (above module.name onPath) (Nat.lt_irrefl _)
    · have each : ∀ edge ∈ module.instances, ∀ order, ∃ next,
          descend circuit (path ++ [module.name]) module order edge = .ok next := by
        intro edge isInstance order
        obtain ⟨isModule, lower⟩ := ranks module member edge isInstance
        unfold descend
        split
        · rename_i missing
          exact absurd isModule (find?_eq_none_iff.mp missing)
        · rename_i child found
          have closer : rank child.name < rank module.name := name_of_find? found ▸ lower
          refine visit_total ranks (fun name onPath => ?_) order
          rcases List.mem_append.mp onPath with outer | last
          · exact Nat.lt_trans closer (above name outer)
          · exact List.mem_singleton.mp last ▸ closer
      obtain ⟨below, descended⟩ := foldlM_total each order
      exact ⟨_, bind_eq_ok.mpr ⟨below, descended, rfl⟩⟩
termination_by rank module.name

/-- In an order from the leaves to the root the positions are ranks. -/
theorem Ordered.ranks {order : List Module} (ordered : Ordered circuit order)
    (all : ∀ module ∈ circuit.modules, module ∈ order) :
    circuit.Ranks fun name => (order.map Module.name).idxOf name := by
  intro module member edge isInstance
  obtain ⟨before, after, rfl⟩ := List.append_of_mem (all module member)
  have inside := ordered.callee_before rfl edge isInstance
  obtain ⟨callee, placed, named⟩ := List.mem_map.mp inside
  have isModule := ordered.members callee (List.mem_append_left _ placed)
  refine ⟨named ▸ List.mem_map_of_mem isModule, ?_⟩
  have distinct := ordered.nodup
  rw [List.map_append, List.map_cons, List.nodup_append] at distinct
  have fresh : module.name ∉ before.map Module.name :=
    fun again => distinct.2.2 module.name again module.name List.mem_cons_self rfl
  dsimp only
  rw [List.map_append, List.map_cons, List.idxOf_append_of_mem inside, List.idxOf_append_of_notMem fresh,
    List.idxOf_cons_self, Nat.add_zero]
  exact List.idxOf_lt_length_of_mem inside

end Hierarchy

open Hierarchy

/-- The modules of a circuit can be put in order just when their names are distinct, one of them is the main
module, and they have ranks, so that none is declared nowhere and none lies below itself. -/
theorem Circuit.leafToRoot_succeeds_iff {circuit : Circuit} : (∃ order, circuit.leafToRoot = .ok order) ↔
    (circuit.modules.map Module.name).Nodup ∧ circuit.main ∈ circuit.modules.map Module.name ∧
      ∃ rank, circuit.Ranks rank := by
  constructor
  · rintro ⟨order, ordered⟩
    obtain ⟨distinct, hasMain, whole, all⟩ := leafToRoot_spec ordered
    exact ⟨distinct, hasMain, _, whole.ranks all⟩
  · rintro ⟨distinct, hasMain, rank, ranks⟩
    have unrepeated := checkDistinct_eq_ok.mpr distinct
    unfold leafToRoot
    split
    · rename_i missing
      exact absurd hasMain (find?_eq_none_iff.mp missing)
    · obtain ⟨below, visited⟩ := visit_total ranks (List.forall_mem_nil _) []
      obtain ⟨order, ordered⟩ :=
        foldlM_total (fun module _ => visit_total ranks (List.forall_mem_nil _)) below
      exact ⟨order, bind_eq_ok.mpr ⟨(), unrepeated, bind_eq_ok.mpr ⟨below, visited, ordered⟩⟩⟩

end CircuitNames
