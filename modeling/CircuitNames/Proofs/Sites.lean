import CircuitNames.Proofs.Places

namespace CircuitNames

/-- A declaration as it is addressed from another module, from which a path leads to its own. -/
def Declaration.targetBehind (home : ModuleTarget) (path : List Hop) : Declaration → Target
  | signal name => .reference ⟨home.circuit, home.module, path, name, []⟩
  | inst name callee => .inst ⟨home.circuit, home.module, path, name, callee⟩
  | mem decl => .reference ⟨home.circuit, home.module, path, decl.name, []⟩

/-- Where something stands that a target addresses, whatever it is called: the place of the module where the
path begins, and for every instance on it the position where it is declared and the place of the module it
leads to. -/
inductive Site where
  | circuit
  | module (home : Nat)
  | declaration (home : Nat) (route : List (Spot × Nat)) (spot : Spot)
  | memoryPort (home : Nat) (route : List (Spot × Nat)) (spot : Spot) (role : PortRole) (port : Nat)
      (signals : List String)
deriving DecidableEq

namespace Circuit

/-- A path that follows instances from the module at one place to the module at another. -/
inductive Leads (circuit : Circuit) : Nat → List Hop → List (Spot × Nat) → Nat → Prop
  | here (home : Nat) : Leads circuit home [] [] home
  | hop {home place last : Nat} {spot : Spot} {name : String} {callee : Module} {path : List Hop}
      {route : List (Spot × Nat)} (atSpot : circuit.declarationAt? home spot = some (.inst name callee.name))
      (atPlace : circuit.modules[place]? = some callee) (rest : Leads circuit place path route last) :
      Leads circuit home (⟨name, callee.name⟩ :: path) ((spot, place) :: route) last

/-- What a target addresses in a circuit: the circuit, a module, what is declared in the module that a path of
instances leads to, or a port of a memory there, with any signals below it. -/
inductive Addresses (circuit : Circuit) : Target → Site → Prop
  | circuit : Addresses circuit (.circuit circuit.main) .circuit
  | module {home : Nat} {module : Module} (atHome : circuit.modules[home]? = some module) :
      Addresses circuit (.module (circuit.home module)) (.module home)
  | declaration {home last : Nat} {module : Module} {path : List Hop}
      {route : List (Spot × Nat)} {spot : Spot}
      {declaration : Declaration} (atHome : circuit.modules[home]? = some module)
      (leads : circuit.Leads home path route last)
      (atSpot : circuit.declarationAt? last spot = some declaration) :
      Addresses circuit (declaration.targetBehind (circuit.home module) path) (.declaration home route spot)
  | memoryPort {home last : Nat} {module : Module} {path : List Hop} {route : List (Spot × Nat)} {spot : Spot}
      {decl : MemDecl} {role : PortRole} {index : Nat} {port : String} {signals : List String}
      (atHome : circuit.modules[home]? = some module) (leads : circuit.Leads home path route last)
      (atSpot : circuit.declarationAt? last spot = some (.mem decl))
      (atPort : (decl.portsIn role)[index]? = some port) :
      Addresses circuit (.reference ⟨circuit.main, module.name, path, decl.name, port :: signals⟩)
        (.memoryPort home route spot role index signals)

variable {circuit : Circuit}

theorem Leads.unique {home last other : Nat} {path otherPath : List Hop} {route : List (Spot × Nat)}
    (leads : circuit.Leads home path route last) (alsoLeads : circuit.Leads home otherPath route other) :
    path = otherPath ∧ last = other := by
  induction leads generalizing otherPath with
  | here home =>
    cases alsoLeads
    exact ⟨rfl, rfl⟩
  | hop atSpot atPlace rest ih =>
    cases alsoLeads with
    | hop otherSpot otherPlace otherRest =>
      obtain ⟨rfl, rfl⟩ := ih otherRest
      obtain rfl := Option.some.inj (atPlace.symm.trans otherPlace)
      obtain ⟨rfl, -⟩ := Declaration.inst.inj (Option.some.inj (atSpot.symm.trans otherSpot))
      exact ⟨rfl, rfl⟩

/-- There is one target for what stands at a site. -/
theorem Addresses.unique {target other : Target} {site : Site} (addresses : circuit.Addresses target site)
    (alsoAddresses : circuit.Addresses other site) : target = other := by
  cases addresses with
  | circuit =>
    cases alsoAddresses
    rfl
  | module atHome =>
    cases alsoAddresses with
    | module otherHome => rw [Option.some.inj (atHome.symm.trans otherHome)]
  | declaration atHome leads atSpot =>
    cases alsoAddresses with
    | declaration otherHome otherLeads otherSpot =>
      obtain ⟨rfl, rfl⟩ := leads.unique otherLeads
      obtain rfl := Option.some.inj (atHome.symm.trans otherHome)
      rw [Option.some.inj (atSpot.symm.trans otherSpot)]
  | memoryPort atHome leads atSpot atPort =>
    cases alsoAddresses with
    | memoryPort otherHome otherLeads otherSpot otherPort =>
      obtain ⟨rfl, rfl⟩ := leads.unique otherLeads
      obtain rfl := Option.some.inj (atHome.symm.trans otherHome)
      obtain rfl := Declaration.mem.inj (Option.some.inj (atSpot.symm.trans otherSpot))
      rw [Option.some.inj (atPort.symm.trans otherPort)]

/-- The module a path leads to has the name that the path ends in. -/
theorem Leads.ends {home last : Nat} {path : List Hop} {route : List (Spot × Nat)} {module holder : Module}
    (leads : circuit.Leads home path route last) (atHome : circuit.modules[home]? = some module)
    (atLast : circuit.modules[last]? = some holder) : Ledger.endOfPath module.name path = holder.name := by
  induction leads generalizing module with
  | here home =>
    obtain rfl := Option.some.inj (atHome.symm.trans atLast)
    rfl
  | hop atSpot atPlace rest ih => rw [Hop.endOfPath_cons, ih atPlace atLast]

theorem exists_of_declarationAt? {home : Nat} {spot : Spot} {declaration : Declaration}
    (atSpot : circuit.declarationAt? home spot = some declaration) :
    ∃ module, circuit.modules[home]? = some module ∧ declaration ∈ module.declarations := by
  obtain ⟨module, atHome, -⟩ := Option.bind_eq_some_iff.mp atSpot
  exact ⟨module, atHome, mem_of_declarationAt? atHome atSpot⟩

end Circuit

/-- A renamed declaration is addressed by the renamed target. -/
theorem Declaration.renamed_targetBehind (names : Target → String) (home : ModuleTarget) (path : List Hop)
    (declaration : Declaration) : (declaration.targetBehind home path).renamed names =
      (declaration.renamed names ⟨home.circuit, Ledger.endOfPath home.module path⟩).targetBehind
        (home.renamed names)
        (Hop.renamedPath names home.circuit home.module path) := by
  cases declaration <;> rfl

theorem Declaration.mem_components_targetBehind {declaration : Declaration} {home : ModuleTarget}
    {path : List Hop} {part : Address} (inside : part ∈ (declaration.targetBehind home path).components) :
    part ∈ (Target.module home).components ∨ part ∈ Hop.addresses home.circuit home.module path ∨
      part ∈ (declaration.address ⟨home.circuit, Ledger.endOfPath home.module path⟩).components := by
  cases declaration <;>
    simp only [targetBehind, address, Target.components, Address.components, InstanceTarget.holder,
      ReferenceTarget.holder, List.mem_cons, List.mem_append, List.not_mem_nil, or_false, List.head?_nil,
      Option.toList_none, List.map_nil] at inside ⊢ <;>
    tauto

namespace Renaming

variable {names : Target → String} {circuit out : Circuit} (renamed : Renaming names circuit out)
include renamed

theorem leads {home last : Nat} {path : List Hop} {route : List (Spot × Nat)} {module : Module}
    (leads : circuit.Leads home path route last) (atHome : circuit.modules[home]? = some module) :
    out.Leads home (Hop.renamedPath names circuit.main module.name path) route last := by
  induction leads generalizing module with
  | here home => exact .here home
  | hop atSpot atPlace rest ih =>
    have declared := (renamed.declarationAt?_eq_some atHome).mpr ⟨_, atSpot, rfl⟩
    obtain ⟨result, atResult, named, -⟩ := getElem?_of_forall₂_left renamed.modules atPlace
    have later := ih atPlace
    rw [Declaration.renamed, ← named] at declared
    rw [Hop.renamedPath, ← named]
    exact .hop declared atResult later

/-- What a target addresses stands at its site in the renamed circuit, where the renamed target addresses
it. -/
theorem addresses {target : Target} {site : Site} (addresses : circuit.Addresses target site) :
    out.Addresses (target.renamed names) site := by
  have homeOf {module result : Module} (named : result.name = names (.module (circuit.home module))) :
      out.home result = (circuit.home module).renamed names := by
    rw [Circuit.home, renamed.main, named]
    rfl
  cases addresses with
  | circuit =>
    rw [Target.renamed, ← renamed.main]
    exact .circuit
  | module atHome =>
    obtain ⟨result, atResult, named, -⟩ := getElem?_of_forall₂_left renamed.modules atHome
    rw [Target.renamed, ← homeOf named]
    exact .module atResult
  | declaration atHome leads atSpot =>
    obtain ⟨holder, atLast, -⟩ := Circuit.exists_of_declarationAt? atSpot
    obtain ⟨result, atResult, named, -⟩ := getElem?_of_forall₂_left renamed.modules atHome
    have declared := (renamed.declarationAt?_eq_some atLast).mpr ⟨_, atSpot, rfl⟩
    have path := renamed.leads leads atHome
    rw [Declaration.renamed_targetBehind, ← homeOf named, leads.ends atHome atLast]
    exact .declaration atResult path declared
  | @memoryPort home last module path route spot decl role index port signals atHome leads atSpot atPort =>
    obtain ⟨holder, atLast, -⟩ := Circuit.exists_of_declarationAt? atSpot
    obtain ⟨result, atResult, named, -⟩ := getElem?_of_forall₂_left renamed.modules atHome
    have declared := (renamed.declarationAt?_eq_some atLast).mpr ⟨_, atSpot, rfl⟩
    have ports : ((decl.renamed names (circuit.home holder)).portsIn role)[index]? =
        some (names (.reference (((circuit.home holder).reference decl.name).field port))) := by
      rw [MemDecl.portsIn_renamed, List.getElem?_map, atPort, Option.map_some]
    have there : out.Addresses (.reference ⟨out.main, result.name, _, _, _ :: signals⟩) _ :=
      .memoryPort atResult (renamed.leads leads atHome) declared ports
    rw [renamed.main, named] at there
    simp only [Target.renamed, ReferenceTarget.renamedFields, ReferenceTarget.holder,
      leads.ends atHome atLast]
    exact there

end Renaming

/-- The module where the path begins, the path, and the name of what is declared can be read off the
target. -/
theorem Declaration.targetBehind_inj {first second : Declaration} {home other : ModuleTarget}
    {path otherPath : List Hop} (same : first.targetBehind home path = second.targetBehind other otherPath) :
    home.module = other.module ∧ path = otherPath ∧ first.name = second.name := by
  cases first <;> cases second <;> simp_all [targetBehind, name]

/-- No declaration is addressed with a field. -/
theorem Declaration.targetBehind_ne_field {declaration : Declaration} {home : ModuleTarget} {path : List Hop}
    {target : ReferenceTarget} {field : String} {inner : List String}
    (fields : target.fields = field :: inner) :
    declaration.targetBehind home path ≠ .reference target := by
  rintro same
  cases declaration <;> simp only [targetBehind, Target.reference.injEq, reduceCtorEq] at same <;>
    · rw [← same] at fields
      cases fields

namespace Circuit.Separates

variable {circuit : Circuit} {names : Target → String} (apart : circuit.Separates names)
include apart

/-- Paths from one module that are renamed alike are alike. -/
theorem path_eq {home other last otherLast : Nat} {path otherPath : List Hop}
    {route otherRoute : List (Spot × Nat)} {module : Module} (leads : circuit.Leads home path route last)
    (otherLeads : circuit.Leads other otherPath otherRoute otherLast)
    (atHome : circuit.modules[home]? = some module) (atOther : circuit.modules[other]? = some module)
    (same : Hop.renamedPath names circuit.main module.name path =
      Hop.renamedPath names circuit.main module.name otherPath) : path = otherPath := by
  induction leads generalizing other otherPath otherRoute module with
  | here home =>
    cases otherLeads with
    | here other => rfl
    | hop otherSpot otherPlace otherRest => cases same
  | hop atSpot atPlace rest ih =>
    cases otherLeads with
    | here other => cases same
    | hop otherSpot otherPlace otherRest =>
      obtain ⟨sameHop, later⟩ := List.cons.inj same
      have declared := mem_of_declarationAt? atHome atSpot
      have otherDeclared := mem_of_declarationAt? atOther otherSpot
      have sameInst := apart.declarations module (List.mem_of_getElem? atHome) _ declared _ otherDeclared
        (Hop.mk.inj sameHop).1
      obtain ⟨rfl, sameName⟩ := Declaration.inst.inj sameInst
      obtain rfl := apart.modules _ (List.mem_of_getElem? atPlace) _ (List.mem_of_getElem? otherPlace)
        (by rw [Circuit.home, sameName])
      rw [ih otherRest atPlace otherPlace later]

/-- Modules that paths lead to from modules renamed alike, along hops renamed alike, are the same. -/
theorem holder_eq {home other last otherLast : Nat} {path otherPath : List Hop}
    {route otherRoute : List (Spot × Nat)} {module otherModule holder otherHolder : Module}
    (atHome : circuit.modules[home]? = some module) (atOther : circuit.modules[other]? = some otherModule)
    (leads : circuit.Leads home path route last)
    (otherLeads : circuit.Leads other otherPath otherRoute otherLast) (atLast : circuit.modules[last]? =
      some holder) (atOtherLast : circuit.modules[otherLast]? = some otherHolder)
    (sameName : names (.module (circuit.home module)) = names (.module (circuit.home otherModule)))
    (samePath : Hop.renamedPath names circuit.main module.name path =
      Hop.renamedPath names circuit.main otherModule.name otherPath) :
    module = otherModule ∧ path = otherPath ∧ holder = otherHolder := by
  obtain rfl := apart.modules _ (List.mem_of_getElem? atHome) _ (List.mem_of_getElem? atOther) sameName
  obtain rfl := apart.path_eq leads otherLeads atHome atOther samePath
  have ends := (leads.ends atHome atLast).symm.trans (otherLeads.ends atOther atOtherLast)
  refine ⟨rfl, rfl, apart.modules _ (List.mem_of_getElem? atLast) _ (List.mem_of_getElem? atOtherLast) ?_⟩
  rw [Circuit.home, ends]

section Behind

variable {home other last otherLast : Nat} {path otherPath : List Hop} {route otherRoute : List (Spot × Nat)}
  {module otherModule : Module} {spot otherSpot : Spot} (atHome : circuit.modules[home]? = some module)
  (atOther : circuit.modules[other]? = some otherModule) (leads : circuit.Leads home path route last)
  (otherLeads : circuit.Leads other otherPath otherRoute otherLast)
include atHome atOther leads otherLeads

/-- Declarations behind paths are addressed alike when they are renamed alike. -/
theorem targetBehind_eq {declaration otherDeclaration : Declaration}
    (atSpot : circuit.declarationAt? last spot = some declaration)
    (atOtherSpot : circuit.declarationAt? otherLast otherSpot = some otherDeclaration)
    (same : (declaration.targetBehind (circuit.home module) path).renamed names =
      (otherDeclaration.targetBehind (circuit.home otherModule) otherPath).renamed names) :
    declaration.targetBehind (circuit.home module) path =
      otherDeclaration.targetBehind (circuit.home otherModule) otherPath := by
  obtain ⟨holder, atLast, declared⟩ := exists_of_declarationAt? atSpot
  obtain ⟨otherHolder, atOtherLast, otherDeclared⟩ := exists_of_declarationAt? atOtherSpot
  rw [Declaration.renamed_targetBehind, Declaration.renamed_targetBehind, leads.ends atHome atLast,
    otherLeads.ends atOther atOtherLast] at same
  obtain ⟨sameName, samePath, sameLast⟩ := Declaration.targetBehind_inj same
  obtain ⟨rfl, rfl, rfl⟩ :=
    apart.holder_eq atHome atOther leads otherLeads atLast atOtherLast sameName samePath
  rw [Declaration.name_renamed, Declaration.name_renamed] at sameLast
  rw [apart.declarations holder (List.mem_of_getElem? atLast) _ declared _ otherDeclared sameLast]

/-- Ports of memories behind paths are addressed alike when they are renamed alike. -/
theorem portBehind_eq {decl otherDecl : MemDecl}
    (atSpot : circuit.declarationAt? last spot = some (.mem decl))
    (atOtherSpot : circuit.declarationAt? otherLast otherSpot = some (.mem otherDecl))
    {port otherPort : String} (isPort : port ∈ decl.portNames) (isOtherPort : otherPort ∈ otherDecl.portNames)
    {signals otherSignals : List String}
    (same : (Target.reference ⟨circuit.main, module.name, path, decl.name, port :: signals⟩).renamed names =
      (Target.reference ⟨circuit.main, otherModule.name, otherPath, otherDecl.name,
        otherPort :: otherSignals⟩).renamed names) :
    Target.reference ⟨circuit.main, module.name, path, decl.name, port :: signals⟩ =
      .reference ⟨circuit.main, otherModule.name, otherPath, otherDecl.name, otherPort :: otherSignals⟩ := by
  obtain ⟨holder, atLast, declared⟩ := exists_of_declarationAt? atSpot
  obtain ⟨otherHolder, atOtherLast, otherDeclared⟩ := exists_of_declarationAt? atOtherSpot
  simp only [Target.renamed, ReferenceTarget.renamedFields, ReferenceTarget.holder, leads.ends atHome atLast,
    otherLeads.ends atOther atOtherLast, Target.reference.injEq, ReferenceTarget.mk.injEq,
    List.cons.injEq] at same
  obtain ⟨-, sameName, samePath, sameRef, samePort, rfl⟩ := same
  obtain ⟨rfl, rfl, rfl⟩ :=
    apart.holder_eq atHome atOther leads otherLeads atLast atOtherLast sameName samePath
  have member := List.mem_of_getElem? atLast
  obtain rfl := Declaration.mem.inj (apart.declarations holder member _ declared _ otherDeclared sameRef)
  rw [apart.memoryPorts holder member decl declared port isPort otherPort isOtherPort samePort]

end Behind

/-- Targets that address something and are renamed alike are the same. -/
theorem target_eq {first second : Target} {site other : Site} (isFirst : circuit.Addresses first site)
    (isSecond : circuit.Addresses second other) (same : first.renamed names = second.renamed names) :
    first = second := by
  -- Renaming keeps the kind of a target and whether it has a field, so most cases cannot meet.
  cases isFirst with
  | circuit =>
    cases isSecond with
    | circuit => rfl
    | module _ => cases same
    | @declaration _ _ _ _ _ _ declaration _ _ _ => cases declaration <;> cases same
    | memoryPort _ _ _ _ => cases same
  | @module _ module atHome =>
    cases isSecond with
    | circuit => cases same
    | @module _ other atOther =>
      have sameName := (ModuleTarget.mk.inj (Target.module.inj same)).2
      rw [apart.modules module (List.mem_of_getElem? atHome) other (List.mem_of_getElem? atOther) sameName]
    | @declaration _ _ _ _ _ _ declaration _ _ _ => cases declaration <;> cases same
    | memoryPort _ _ _ _ => cases same
  | @declaration _ _ _ _ _ _ declaration atHome leads atSpot =>
    cases isSecond with
    | circuit => cases declaration <;> cases same
    | module _ => cases declaration <;> cases same
    | declaration atOther otherLeads atOtherSpot =>
      exact apart.targetBehind_eq atHome atOther leads otherLeads atSpot atOtherSpot same
    | memoryPort _ _ _ _ =>
      rw [Declaration.renamed_targetBehind] at same
      exact absurd same (Declaration.targetBehind_ne_field rfl)
  | memoryPort atHome leads atSpot atPort =>
    cases isSecond with
    | circuit => cases same
    | module _ => cases same
    | declaration _ _ _ =>
      rw [Declaration.renamed_targetBehind] at same
      exact absurd same.symm (Declaration.targetBehind_ne_field rfl)
    | memoryPort atOther otherLeads atOtherSpot atOtherPort =>
      exact apart.portBehind_eq atHome atOther leads otherLeads atSpot atOtherSpot
        (MemDecl.mem_portNames_of_portsIn atPort) (MemDecl.mem_portNames_of_portsIn atOtherPort) same

end Circuit.Separates

end CircuitNames
