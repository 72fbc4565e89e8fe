import CircuitNames.Proofs.PassResults
import CircuitNames.Proofs.Sites

namespace CircuitNames

namespace Circuit.Identified

variable {circuit : Circuit} (identified : circuit.Identified)
include identified

theorem address_component {home : Nat} {module : Module} {spot : Spot} {declaration : Declaration}
    (atHome : circuit.modules[home]? = some module)
    (atSpot : circuit.declarationAt? home spot = some declaration) :
    ∀ part ∈ (declaration.address (circuit.home module)).components, part.Identified := by
  have inModule : module.declarationAt? spot = some declaration := by
    rwa [declarationAt?, atHome, Option.bind_some] at atSpot
  have own := identified.declared atHome inModule _ List.mem_cons_self
  rw [← Declaration.target_address] at own
  exact fun _ => Address.Identified.component own

theorem leads {home last : Nat} {path : List Hop} {route : List (Spot × Nat)} {module : Module}
    (leads : circuit.Leads home path route last) (atHome : circuit.modules[home]? = some module) :
    ∀ part ∈ Hop.addresses circuit.main module.name path, part.Identified := by
  induction leads generalizing module with
  | here home => exact List.forall_mem_nil _
  | @hop _ _ _ _ name callee _ _ atSpot atPlace rest ih =>
    have parts := identified.address_component atHome atSpot
    have own := parts (.inst (circuit.home module) name callee.name) (Address.mem_components _)
    have callee :=
      parts (.module ⟨circuit.main, callee.name⟩) (by simp [Declaration.address, Address.components])
    exact List.forall_mem_cons.mpr ⟨own, List.forall_mem_cons.mpr ⟨callee, ih atPlace⟩⟩

theorem module_component {home : Nat} {module : Module} (atHome : circuit.modules[home]? = some module) :
    ∀ part ∈ (Target.module (circuit.home module)).components, part.Identified := by
  have atPlace : circuit.addressAt? (.module home) = some (.module (circuit.home module)) := by
    rw [Circuit.addressAt?, atHome, Option.map_some]
  exact fun _ => Address.Identified.component (identified.addressAt? atPlace)

theorem addressed {target : Target} {site : Site} (addresses : circuit.Addresses target site) :
    ∀ part ∈ target.components, part.Identified := by
  cases addresses with
  | circuit => exact List.forall_mem_singleton.mpr (List.forall_mem_singleton.mpr identified.main)
  | module atHome => exact identified.module_component atHome
  | declaration atHome leads atSpot =>
    obtain ⟨holder, atLast, -⟩ := exists_of_declarationAt? atSpot
    intro part inside
    rcases Declaration.mem_components_targetBehind inside with outer | onPath | own
    · exact identified.module_component atHome part outer
    · exact identified.leads leads atHome part onPath
    · rw [leads.ends atHome atLast] at own
      exact identified.address_component atLast atSpot part own
  | @memoryPort home last module path _ spot decl role index port signals atHome leads atSpot atPort =>
    obtain ⟨holder, atLast, -⟩ := exists_of_declarationAt? atSpot
    have atPlace : circuit.addressAt? (.memoryPort last spot role index) =
        some (.port (circuit.home holder) decl.name port) := by
      rw [declarationAt?, atLast, Option.bind_some] at atSpot
      simp [Circuit.addressAt?, atLast, atSpot, Declaration.portAt?, atPort]
    have own : (Address.port (circuit.home holder) decl.name port).Identified := identified.addressAt? atPlace
    have ends : ReferenceTarget.holder ⟨circuit.main, module.name, path, decl.name, port :: signals⟩ =
        circuit.home holder := by rw [ReferenceTarget.holder, leads.ends atHome atLast]
    have outer := identified.module_component atHome
    have onPath := identified.leads leads atHome
    intro part inside
    simp only [Target.components, ends, List.mem_cons, List.mem_append, List.head?_cons, Option.toList_some,
      List.map_cons, List.map_nil, List.not_mem_nil, or_false] at inside
    rcases inside with rfl | rfl | inside | rfl | rfl
    · exact outer _ (by simp [Target.components])
    · exact outer _ (by simp [Target.components])
    · exact onPath part inside
    · exact own.component (by simp [Address.components])
    · exact own

end Circuit.Identified

/-- Where the ledger of a run leads. Whatever a target addresses in the circuit, along any path of instances,
the target is tracked to the only one that addresses what stands at the same site in the result. No two
targets are tracked to one, nor to two with the same text where all names are identifiers. -/
theorem Pass.run_tracks_sites {spec : RuleSpec} {circuit out : Circuit} {ledger : Ledger} {skips : SkipSet}
    (decoded : circuit.Decoded) (distinct : circuit.Distinct)
    (run : (Pass.ofSpec spec).run circuit .empty skips = .ok (out, ledger)) :
    (∀ target site, circuit.Addresses target site → ∃ current, ledger.track target = .ok current ∧
      out.Addresses current site ∧ ∀ other, out.Addresses other site → other = current) ∧
    (∀ first second site other, circuit.Addresses first site → circuit.Addresses second other →
      ledger.track first = ledger.track second → first = second) ∧
    (spec.Proper → ∀ first second site other current last, circuit.Addresses first site →
      circuit.Addresses second other → first.Identified → second.Identified →
        ledger.track first = .ok current →
      ledger.track second = .ok last → current.text = last.text → first = second) := by
  have left := Pass.run_leaves decoded.identified distinct run
  have tracked : ∀ {target site}, circuit.Addresses target site →
      ledger.track target = .ok (target.renamed ledger.name) :=
    fun addresses => left.plain.track_renamed (decoded.identified.addressed addresses)
  refine ⟨?_, ?_, ?_⟩
  · intro target site addresses
    have there := left.renamed.addresses addresses
    exact ⟨_, tracked addresses, there, fun other also => also.unique there⟩
  · intro first second site other isFirst isSecond same
    rw [tracked isFirst, tracked isSecond] at same
    exact left.separates.target_eq isFirst isSecond (Except.ok.inj same)
  · intro proper first second site other current last isFirst isSecond names otherNames atFirst atSecond same
    obtain rfl := Except.ok.inj ((tracked isFirst).symm.trans atFirst)
    obtain rfl := Except.ok.inj ((tracked isSecond).symm.trans atSecond)
    have given : ∀ target : Target, target.Identified → isIdentifier (ledger.name target) = true :=
      fun _ => (left.regular proper).identifies.name
    have sameTarget := Target.eq_of_text_eq (names.renamed given) (otherNames.renamed given) same
    exact left.separates.target_eq isFirst isSecond sameTarget

namespace Circuit.Sample

/-- The port of the module below, seen along the instance. -/
def portBelow : Target := .reference ⟨"Top", "Top", [⟨"U", "Sub"⟩], "A", []⟩

def siteBelow : Site := .declaration 0 [(.stmt 0, 1)] (.port 0)

theorem addresses_portBelow : circuit.Addresses portBelow siteBelow := by
  have leads : circuit.Leads 0 [⟨"U", "Sub"⟩] [(.stmt 0, 1)] 1 :=
    @Leads.hop circuit 0 1 1 (.stmt 0) "U" (.regular sub) [] [] rfl rfl (.here 1)
  exact @Addresses.declaration circuit 0 1 (.regular top) _ _ (.port 0) (.signal "A") rfl leads rfl

end Circuit.Sample

open Circuit in
theorem Pass.run_sample_tracks_sites :
    ∃ out ledger, (Pass.ofSpec .lowerCase).run Sample.circuit .empty .empty = .ok (out, ledger) ∧
      ledger.track Sample.portBelow = .ok (.reference ⟨"top", "top", [⟨"u", "sub"⟩], "a", []⟩) ∧
      out.Addresses (.reference ⟨"top", "top", [⟨"u", "sub"⟩], "a", []⟩) Sample.siteBelow ∧
      ∀ second other, Sample.circuit.Addresses second other →
        ledger.track second = ledger.track Sample.portBelow →
        second = Sample.portBelow := by
  have given : ((Pass.ofSpec .lowerCase).run Sample.circuit .empty .empty).toOption.bind (fun result =>
      (result.2.track Sample.portBelow).toOption) =
        some (.reference ⟨"top", "top", [⟨"u", "sub"⟩], "a", []⟩) := by
    decide +kernel
  obtain ⟨⟨out, ledger⟩, ran, tracked⟩ := Option.bind_eq_some_iff.mp given
  have run := toOption_eq_some.mp ran
  have atPort := Sample.addresses_portBelow
  obtain ⟨follows, injective, -⟩ := Pass.run_tracks_sites Sample.decoded Sample.distinct run
  obtain ⟨current, atCurrent, there, -⟩ := follows _ _ atPort
  obtain rfl := Except.ok.inj (atCurrent.symm.trans (toOption_eq_some.mp tracked))
  exact ⟨out, ledger, run, atCurrent, there, fun second other isSecond same =>
    injective _ _ _ _ isSecond atPort same⟩

end CircuitNames
