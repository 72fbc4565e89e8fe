import CircuitNames.Proofs.LedgerNames
import CircuitNames.Proofs.DeclaredTargets

namespace CircuitNames

theorem Target.withTerminalName_withTerminalName (target : Target) (name last : String) :
    (target.withTerminalName name).withTerminalName last = target.withTerminalName last := by
  cases target with
  | reference target => cases empty : target.fields.isEmpty <;> simp [withTerminalName, empty]
  | _ => rfl

/-- The targets of what is declared: no path leads to them, and the only fields are the ports of memories. -/
inductive Address where
  | circuit (name : String)
  | module (home : ModuleTarget)
  | inst (home : ModuleTarget) (name callee : String)
  | reference (home : ModuleTarget) (name : String)
  | port (home : ModuleTarget) (memory name : String)
deriving DecidableEq

/-- The module's address under other names, for its circuit and for itself. -/
def ModuleTarget.renamed (names : Target → String) (home : ModuleTarget) : ModuleTarget :=
  ⟨names (.circuit home.circuit), names (.module home)⟩

namespace Address

def target : Address → Target
  | circuit name => .circuit name
  | module home => .module home
  | inst home name callee => .inst (home.inst name callee)
  | reference home name => .reference (home.reference name)
  | port home memory name => .reference ((home.reference memory).field name)

/-- All that gives an address its names, itself included. -/
def components : Address → List Address
  | circuit name => [circuit name]
  | module home => [circuit home.circuit, module home]
  | inst home name callee =>
    [circuit home.circuit, module home, inst home name callee, module ⟨home.circuit, callee⟩]
  | reference home name => [circuit home.circuit, module home, reference home name]
  | port home memory name => [circuit home.circuit, module home, reference home memory, port home memory name]

/-- The address with another name for each of its components. -/
def renamed (names : Target → String) : Address → Address
  | circuit name => circuit (names (.circuit name))
  | module home => module (home.renamed names)
  | inst home name callee =>
    inst (home.renamed names) (names (.inst (home.inst name callee))) (names (.module ⟨home.circuit, callee⟩))
  | reference home name => reference (home.renamed names) (names (.reference (home.reference name)))
  | port home memory name =>
    port (home.renamed names) (names (.reference (home.reference memory)))
      (names (.reference ((home.reference memory).field name)))

/-- Reads an address off its target. -/
def ofTarget : Target → Address
  | .circuit name => circuit name
  | .module home => module home
  | .inst target => inst ⟨target.circuit, target.module⟩ target.inst target.ofModule
  | .reference target =>
    match target.fields with
    | [] => reference ⟨target.circuit, target.module⟩ target.ref
    | field :: _ => port ⟨target.circuit, target.module⟩ target.ref field

theorem ofTarget_target (address : Address) : ofTarget address.target = address := by
  cases address <;> rfl

theorem target_injective {first second : Address} (same : first.target = second.target) : first = second := by
  rw [← ofTarget_target first, same, ofTarget_target]

theorem mem_components (address : Address) : address ∈ address.components := by
  cases address <;> simp [components]

theorem components_trans {address part inner : Address} (inside : part ∈ address.components)
    (deeper : inner ∈ part.components) : inner ∈ address.components := by
  cases address <;>
    simp only [components, List.mem_cons, List.not_mem_nil, or_false] at inside <;>
    rcases inside with rfl | rfl | rfl | rfl <;>
    simp only [components, List.mem_cons, List.not_mem_nil, or_false] at deeper ⊢ <;>
    tauto

theorem renamed_terminalName (address : Address) : address.renamed Target.terminalName = address := by
  cases address <;> rfl

theorem withTerminalName_renamed (names : Target → String) (address : Address) :
    (address.renamed names).target.withTerminalName (names address.target) =
      (address.renamed names).target := by
  cases address <;> rfl

/-- Two ways to name rename an address alike when they agree on all that its text spells out. -/
theorem renamed_eq_iff {first second : Target → String} {address : Address} :
    address.renamed first = address.renamed second ↔
      ∀ part ∈ address.components, first part.target = second part.target := by
  cases address <;> simp [renamed, components, target, ModuleTarget.renamed, and_assoc]

/-- To rename twice is to rename once by a third function when this holds of each component. -/
theorem renamed_renamed_iff {first second names : Target → String} {address : Address} :
    (address.renamed first).renamed second = address.renamed names ↔
      ∀ part ∈ address.components, second (part.renamed first).target = names part.target := by
  cases address <;> simp [renamed, components, target, ModuleTarget.renamed, and_assoc]

theorem names_of_mem_components {address part : Address} (inside : part ∈ address.components) :
    ∀ name ∈ part.target.names, name ∈ address.target.names := by
  cases address <;>
    simp only [components, List.mem_cons, List.not_mem_nil, or_false] at inside <;>
    rcases inside with rfl | rfl | rfl | rfl <;>
    simp [target, Target.names, ModuleTarget.inst, ModuleTarget.reference, ReferenceTarget.field]

end Address

/-- Where a declaration of a module is found. -/
def Declaration.address (home : ModuleTarget) : Declaration → Address
  | signal name => .reference home name
  | inst name callee => .inst home name callee
  | mem decl => .reference home decl.name

theorem Declaration.target_address (home : ModuleTarget) (declaration : Declaration) :
    (declaration.address home).target = declaration.target home := by
  cases declaration <;> rfl

/-- A renamed declaration has the renamed address. -/
theorem Declaration.address_renamed (names : Target → String) (home : ModuleTarget)
    (declaration : Declaration) :
    (declaration.renamed names home).address (home.renamed names) =
      (declaration.address home).renamed names := by
  cases declaration <;> rfl

theorem Declaration.addressed_of_mem_targets {home : ModuleTarget} {declaration : Declaration}
    {target : Target} (inside : target ∈ declaration.targets home) :
    ∃ address : Address, target = address.target := by
  rcases List.mem_cons.mp inside with rfl | below
  · exact ⟨declaration.address home, (declaration.target_address home).symm⟩
  · obtain ⟨decl, port, rfl, _, rfl⟩ := mem_portTargets.mp below
    exact ⟨.port home decl.name port, rfl⟩

theorem Module.addressed_of_mem_targets {main : String} {module : Module} {target : Target}
    (inside : target ∈ module.targets main) : ∃ address : Address, target = address.target := by
  cases module with
  | external module => exact ⟨.module ⟨main, module.name⟩, List.mem_singleton.mp inside⟩
  | regular module =>
    rcases mem_targets_regular.mp inside with rfl | ⟨declaration, _, inside⟩
    · exact ⟨.module ⟨main, module.name⟩, rfl⟩
    · exact Declaration.addressed_of_mem_targets inside

end CircuitNames
