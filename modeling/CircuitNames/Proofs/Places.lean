import CircuitNames.Proofs.Histories
import CircuitNames.Proofs.Renaming

namespace CircuitNames

/-- Where an entity stands in a circuit, whatever it is called. -/
inductive Place where
  | circuit
  | module (home : Nat)
  | declaration (home : Nat) (spot : Spot)
  | memoryPort (home : Nat) (spot : Spot) (role : PortRole) (port : Nat)
deriving DecidableEq

/-- The address of a port of a memory. -/
def Declaration.portAt? (home : ModuleTarget) (role : PortRole) (index : Nat) : Declaration → Option Address
  | mem decl => (decl.portsIn role)[index]?.map (.port home decl.name)
  | _ => none

namespace Circuit

/-- The address of what is declared at a place. -/
def addressAt? (circuit : Circuit) : Place → Option Address
  | .circuit => some (.circuit circuit.main)
  | .module home => circuit.modules[home]?.map fun module => .module (circuit.home module)
  | .declaration home spot => circuit.modules[home]?.bind fun module =>
      (module.declarationAt? spot).map (Declaration.address (circuit.home module))
  | .memoryPort home spot role port => circuit.modules[home]?.bind fun module =>
      (module.declarationAt? spot).bind (Declaration.portAt? (circuit.home module) role port)

theorem Identified.declared {circuit : Circuit} (identified : circuit.Identified) {home : Nat}
    {module : Module} (atHome : circuit.modules[home]? = some module) {spot : Spot}
    {declaration : Declaration} (atSpot : module.declarationAt? spot = some declaration) :
    ∀ target ∈ declaration.targets (circuit.home module), target.Identified := by
  have member := List.mem_of_getElem? atHome
  have declared := Module.mem_of_declarationAt? atSpot
  refine Declaration.targets_identified identified.main (identified.moduleName member) fun name inside => ?_
  exact identified.modules module member name (Module.names_of_declaration declared name inside)

/-- The address of anything that the circuit declares has identifiers for names. -/
theorem Identified.addressAt? {circuit : Circuit} (identified : circuit.Identified) {place : Place}
    {address : Address} (atPlace : circuit.addressAt? place = some address) : address.Identified := by
  cases place with
  | circuit =>
    obtain rfl := Option.some.inj atPlace
    exact List.forall_mem_singleton.mpr identified.main
  | module home =>
    obtain ⟨module, atHome, rfl⟩ := Option.map_eq_some_iff.mp atPlace
    have homeOk := identified.moduleName (List.mem_of_getElem? atHome)
    exact List.forall_mem_cons.mpr ⟨identified.main, List.forall_mem_singleton.mpr homeOk⟩
  | declaration home spot =>
    obtain ⟨module, atHome, atPlace⟩ := Option.bind_eq_some_iff.mp atPlace
    obtain ⟨declaration, atSpot, rfl⟩ := Option.map_eq_some_iff.mp atPlace
    have own := identified.declared atHome atSpot _ List.mem_cons_self
    rwa [← Declaration.target_address] at own
  | memoryPort home spot role port =>
    obtain ⟨module, atHome, atPlace⟩ := Option.bind_eq_some_iff.mp atPlace
    obtain ⟨declaration, atSpot, atPlace⟩ := Option.bind_eq_some_iff.mp atPlace
    cases declaration with
    | signal name => cases atPlace
    | inst name callee => cases atPlace
    | mem decl =>
      obtain ⟨name, atPort, rfl⟩ := Option.map_eq_some_iff.mp atPlace
      refine identified.declared atHome atSpot _ (List.mem_cons_of_mem _ ?_)
      exact Declaration.mem_portTargets.mpr ⟨decl, name, rfl, MemDecl.mem_portNames_of_portsIn atPort, rfl⟩

end Circuit

theorem Declaration.portAt?_renamed (names : Target → String) (home : ModuleTarget)
    (role : PortRole) (index : Nat) (declaration : Declaration) :
    (declaration.renamed names home).portAt? (home.renamed names) role index =
      (declaration.portAt? home role index).map (Address.renamed names) := by
  cases declaration with
  | signal name => rfl
  | inst name callee => rfl
  | mem decl =>
    simp only [renamed, portAt?, MemDecl.portsIn_renamed, List.getElem?_map, Option.map_map]
    rfl

namespace Renaming

variable {names : Target → String} {circuit out : Circuit} (renamed : Renaming names circuit out)
include renamed

theorem home_cases (home : Nat) : circuit.modules[home]? = none ∧ out.modules[home]? = none ∨
    ∃ module result, circuit.modules[home]? = some module ∧ out.modules[home]? = some result ∧
      out.home result = (circuit.home module).renamed names ∧ ∀ spot, result.declarationAt? spot =
        (module.declarationAt? spot).map (Declaration.renamed names (circuit.home module)) := by
  cases atHome : circuit.modules[home]? with
  | none =>
    cases atResult : out.modules[home]? with
    | none => exact Or.inl ⟨rfl, rfl⟩
    | some result =>
      obtain ⟨module, found, -⟩ := getElem?_of_forall₂_right renamed.modules atResult
      cases atHome.symm.trans found
  | some module =>
    obtain ⟨result, atResult, named, each⟩ := getElem?_of_forall₂_left renamed.modules atHome
    refine Or.inr ⟨module, result, rfl, atResult, ?_, each⟩
    rw [Circuit.home, renamed.main, named]
    rfl

/-- What stands at a place keeps it, under the address that the names make of its own. -/
theorem addressAt?_eq (place : Place) :
    out.addressAt? place = (circuit.addressAt? place).map (Address.renamed names) := by
  cases place with
  | circuit => exact congrArg (some <| Address.circuit ·) renamed.main
  | module home =>
    rcases renamed.home_cases home with ⟨none, gone⟩ | ⟨module, result, atHome, atResult, same, -⟩
    · simp [Circuit.addressAt?, none, gone]
    · simp [Circuit.addressAt?, atHome, atResult, same, Address.renamed]
  | declaration home spot =>
    rcases renamed.home_cases home with ⟨none, gone⟩ | ⟨module, result, atHome, atResult, same, each⟩
    · simp [Circuit.addressAt?, none, gone]
    · simp [Circuit.addressAt?, atHome, atResult, same, each, Function.comp_def, Declaration.address_renamed]
  | memoryPort home spot role port =>
    rcases renamed.home_cases home with ⟨none, gone⟩ | ⟨module, result, atHome, atResult, same, each⟩
    · simp [Circuit.addressAt?, none, gone]
    · simp only [Circuit.addressAt?, atHome, atResult, same, each, Option.bind_some, Option.bind_map,
        Option.map_bind, Function.comp_def, Declaration.portAt?_renamed]

end Renaming

end CircuitNames
