import CircuitNames.Proofs.Addresses
import CircuitNames.Proofs.CircuitSweep
import CircuitNames.Proofs.IdentifierNames

namespace CircuitNames

namespace Target.Identified

variable {target : Target} (names : target.Identified)
include names

theorem terminalName : isIdentifier target.terminalName = true := by
  cases target with
  | circuit name => exact names name List.mem_cons_self
  | module target => exact names target.module (by simp [Target.names])
  | inst target => exact names target.inst (by simp [Target.names])
  | reference target =>
    cases last : target.fields.getLast? with
    | none =>
      rw [Target.terminalName, last]
      exact names target.ref (by simp [Target.names])
    | some field =>
      rw [Target.terminalName, last]
      exact names field (by simp [Target.names, List.mem_of_getLast? last])

theorem withTerminalName {name : String} (identifier : isIdentifier name = true) :
    (target.withTerminalName name).Identified := by
  have each : ∀ other ∈ (target.withTerminalName name).names, other = name ∨ other ∈ target.names := by
    intro other inside
    cases target with
    | circuit old => exact Or.inl (List.mem_singleton.mp inside)
    | module target =>
      simp only [Target.withTerminalName, Target.names, List.mem_cons] at inside ⊢
      grind
    | inst target =>
      simp only [Target.withTerminalName, Target.names, List.mem_cons] at inside ⊢
      grind
    | reference target =>
      have kept : ∀ field ∈ target.fields.dropLast, field ∈ target.fields := (List.dropLast_sublist _).subset
      cases empty : target.fields.isEmpty <;>
      · simp only [Target.withTerminalName, empty, if_true, if_false, Bool.false_eq_true,
          Target.names, List.mem_cons, List.mem_append] at inside ⊢
        grind
  intro other inside
  rcases each other inside with rfl | old
  · exact identifier
  · exact names other old

end Target.Identified

/-- The names of an address are identifiers. -/
def Address.Identified (address : Address) : Prop := address.target.Identified

namespace Address.Identified

variable {address : Address} (names : address.Identified)
include names

theorem component {part : Address} (inside : part ∈ address.components) : part.Identified :=
  fun name holds => names name (names_of_mem_components inside name holds)

end Address.Identified

namespace Ledger

/-- All replacements are named by identifiers. -/
def Identifies (ledger : Ledger) : Prop :=
  ∀ entry ∈ ledger.entries, ∀ replacement ∈ entry.replacements, replacement.Identified

namespace Identifies

variable {ledger : Ledger} (identifies : ledger.Identifies) {target replacement : Target}
include identifies

theorem resolve? (found : ledger.resolve? target = some replacement) : replacement.Identified := by
  unfold Ledger.resolve? get? at found
  split at found
  · rename_i single
    obtain ⟨entry, isEntry, same⟩ := Option.map_eq_some_iff.mp single
    obtain rfl := Option.some.inj found
    exact identifies entry (List.mem_of_find?_eq_some isEntry) _ (same ▸ List.mem_cons_self)
  · cases found

theorem name (names : target.Identified) : isIdentifier (ledger.name target) = true := by
  unfold Ledger.name
  cases found : ledger.resolve? target with
  | none => exact names.terminalName
  | some replacement => exact (identifies.resolve? found).terminalName

end Identifies

/-- The ledgers that passes leave: sources are addresses, each with one replacement, which differs from it in
its last name only, and all names are identifiers. -/
def Regular (ledger : Ledger) : Prop :=
  ∀ entry ∈ ledger.entries, ∃ (address : Address) (last : String), address.Identified ∧
    isIdentifier last = true ∧ entry = ⟨address.target, [address.target.withTerminalName last]⟩

theorem regular_empty : Ledger.empty.Regular := by simp [Regular, empty]

theorem Regular.plain {ledger : Ledger} (regular : ledger.Regular) : ledger.Plain := by
  constructor
  · intro entry inside
    obtain ⟨address, last, names, _, rfl⟩ := regular entry inside
    exact names
  · intro entry inside
    obtain ⟨address, last, _, _, rfl⟩ := regular entry inside
    exact ⟨last, rfl⟩

theorem Regular.identifies {ledger : Ledger} (regular : ledger.Regular) : ledger.Identifies := by
  intro entry inside
  obtain ⟨address, last, names, identifier, rfl⟩ := regular entry inside
  exact List.forall_mem_singleton.mpr (names.withTerminalName identifier)

/-- To record a new name for an address that is not recorded leaves a regular ledger regular. -/
theorem Regular.register {ledger : Ledger} (regular : ledger.Regular) {address : Address}
    (names : address.Identified) {last : String} (identifier : isIdentifier last = true)
    (absent : ledger.contains address.target = false) :
    (ledger.register address.target (address.target.withTerminalName last)).Regular := by
  intro entry inside
  rw [entries_register_new absent] at inside
  rcases List.mem_append.mp inside with old | new
  · exact regular entry old
  · obtain rfl := List.mem_singleton.mp new
    exact ⟨address, last, names, identifier, rfl⟩

end Ledger

/-- Every declared target is an address. -/
theorem Circuit.declared_addressed {circuit : Circuit} {order : List Module} {target : Target}
    (inside : target ∈ declared (circuit.actions order)) : ∃ address : Address, target = address.target := by
  rw [declared_actions] at inside
  rcases List.mem_cons.mp inside with rfl | inside
  · exact ⟨.circuit circuit.main, rfl⟩
  · obtain ⟨module, -, inside⟩ := List.mem_flatMap.mp inside
    exact Module.addressed_of_mem_targets inside

namespace Plan

variable {plan : Plan} (proper : plan.rule.Identifies)
include proper

theorem pick_identified {target : Target} (names : target.Identified) (scope : Scope) :
    isIdentifier (plan.pick target scope).1 = true := by
  rcases plan.pick_cases target scope with ⟨_, picks⟩ | ⟨_, picks, _⟩ | ⟨_, fresh, ruled, _, picks⟩
  · exact picks ▸ names.terminalName
  · exact picks ▸ names.terminalName
  · exact picks ▸ proper names.terminalName ruled

/-- A sweep with a proper rule records a regular ledger. -/
theorem sweep_regular {circuit : Circuit} {order : List Module} (ready : circuit.Ready order) :
    (plan.sweep circuit order).renames.Regular := by
  have orderly := Circuit.actions_orderly ready
  refine perform_renames orderly Ledger.regular_empty (fun _ _ => rfl) fun target inside key before
    regular absent => ?_
  have names := orderly.identified target inside
  obtain ⟨address, rfl⟩ := Circuit.declared_addressed inside
  have picked := pick_identified proper names (before.scope key)
  exact rename_name key before ▸ regular.register names picked absent

end Plan

end CircuitNames
