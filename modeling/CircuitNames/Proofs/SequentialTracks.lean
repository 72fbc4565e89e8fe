import CircuitNames.Proofs.ComposedLedgers

namespace CircuitNames

namespace Address

/-- The components that give an address its names, apart from its own last one. -/
def enclosing : Address → List Address
  | circuit _ => []
  | module home => [circuit home.circuit]
  | inst home _ callee => [circuit home.circuit, module home, module ⟨home.circuit, callee⟩]
  | reference home _ => [circuit home.circuit, module home]
  | port home memory _ => [circuit home.circuit, module home, reference home memory]

/-- The parts of an address are the address and what encloses it. -/
theorem mem_components_iff {address part : Address} :
    part ∈ address.components ↔ part = address ∨ part ∈ address.enclosing := by
  cases address <;> simp only [components, enclosing, List.mem_cons, List.not_mem_nil, or_false] <;> tauto

/-- An address keeps its names when each of its components does. -/
theorem renamed_of_kept {names : Target → String} {address : Address}
    (own : names address.target = address.target.terminalName)
    (outer : ∀ part ∈ address.enclosing, names part.target = part.target.terminalName) :
    address.renamed names = address := by
  refine (renamed_eq_iff.mpr fun part inside => ?_).trans address.renamed_terminalName
  rcases mem_components_iff.mp inside with rfl | encloses
  · exact own
  · exact outer part encloses

end Address

namespace Ledger

/-- What a ledger says of each component of a target can go on through a later one: the component is recorded,
or the names that enclose it are the ones it keeps. -/
def Covers (ledger : Ledger) (target : Target) : Prop :=
  ∀ part ∈ target.components, ledger.contains part.target = true ∨
    ∀ outer ∈ part.enclosing, ledger.name outer.target = outer.target.terminalName

variable {ledger next : Ledger} {target : Target}

/-- A composed ledger names a component as the later one names what the earlier one made of it. -/
theorem Regular.name_compose_of_covers (regular : ledger.Regular) (later : next.Regular) {result : Ledger}
    (composed : ledger.compose next = .ok result) (names : target.Identified)
    (covers : ledger.Covers target) :
    ∀ part ∈ target.components, next.name (part.renamed ledger.name).target = result.name part.target := by
  intro part inside
  have named := regular.name_compose later composed (names.component inside)
  cases recorded : ledger.contains part.target with
  | true => rw [named, recorded, if_pos rfl]
  | false =>
    have kept := (covers part inside).resolve_left (by simp [recorded])
    have same := Address.renamed_of_kept (name_of_not_contains recorded) kept
    rw [named, recorded, same, if_neg Bool.false_ne_true]

/-- To track a target in a composed ledger is to track it in the earlier ledger and then in the later one.
This holds of every target of which the earlier ledger covers each component, however long its path. -/
theorem track_compose (regular : ledger.Regular) (later : next.Regular) (names : target.Identified)
    (covers : ledger.Covers target) :
    ∃ result between final, ledger.compose next = .ok result ∧ ledger.track target = .ok between ∧
      next.track between = .ok final ∧ result.track target = .ok final := by
  have composed := regular.compose_eq later
  have each := regular.name_compose_of_covers later composed names covers
  have between := names.renamed fun _ => regular.identifies.name
  have atResult := (regular.compose later composed).plain.track_renamed fun _ => names.component
  rw [← Target.renamed_renamed each] at atResult
  have first := regular.plain.track_renamed fun _ => names.component
  have second := later.plain.track_renamed fun _ => between.component
  exact ⟨_, _, _, composed, first, second, atResult⟩

namespace Sample

def renames (entries : List (Address × String)) : Ledger :=
  ⟨entries.map fun (address, last) => ⟨address.target, [address.target.withTerminalName last]⟩⟩

theorem regular_renames {entries : List (Address × String)}
    (names : ∀ entry ∈ entries, (∀ name ∈ entry.1.target.names, isIdentifier name = true) ∧
      isIdentifier entry.2 = true) :
    (renames entries).Regular := by
  intro entry inside
  obtain ⟨⟨address, last⟩, member, rfl⟩ := List.mem_map.mp inside
  obtain ⟨own, identifier⟩ := names _ member
  exact ⟨address, last, own, identifier, rfl⟩

/-- Renames of all that leads to a memory below an instance; the circuit keeps its name. -/
def first : List (Address × String) :=
  [(.module ⟨"C", "Sub"⟩, "sub"), (.reference ⟨"C", "Sub"⟩ "Mem", "mem"), (.port ⟨"C", "Sub"⟩ "Mem" "R", "r"),
    (.module ⟨"C", "Top"⟩, "top"), (.inst ⟨"C", "Top"⟩ "U" "Sub", "u")]

/-- Renames of the circuit, and of some of what is found under the new names. -/
def second : List (Address × String) :=
  [(.circuit "C", "D"), (.module ⟨"C", "sub"⟩, "below"), (.port ⟨"C", "sub"⟩ "mem" "r", "q"),
    (.inst ⟨"C", "top"⟩ "u" "sub", "v"), (.reference ⟨"C", "Sub"⟩ "Mem", "lost")]

/-- A signal of the memory's port, before the passes. -/
def signal : Target := .reference ⟨"C", "Top", [⟨"U", "Sub"⟩], "Mem", ["R", "data"]⟩

def arrived : Target := .reference ⟨"D", "top", [⟨"v", "below"⟩], "mem", ["q", "data"]⟩

end Sample

open Sample in
theorem track_compose_sample : ∃ result between, (renames first).compose (renames second) = .ok result ∧
    (renames first).track signal = .ok between ∧ (renames second).track between = .ok arrived ∧
    result.track signal = .ok arrived := by
  have identified : ∀ name ∈ signal.names, isIdentifier name = true := by decide +kernel
  have covers : ∀ part ∈ signal.components, (renames first).contains part.target = true ∨
      ∀ outer ∈ part.enclosing, (renames first).name outer.target = outer.target.terminalName := by
        decide +kernel
  have regular : (renames first).Regular := regular_renames (by decide +kernel)
  have later : (renames second).Regular := regular_renames (by decide +kernel)
  obtain ⟨result, between, final, composed, atFirst, atSecond, tracked⟩ :=
    track_compose regular later identified covers
  have seen : ((renames first).track signal).toOption.bind
      (fun target => ((renames second).track target).toOption) = some arrived := by decide +kernel
  rw [atFirst] at seen
  obtain rfl := Except.ok.inj (atSecond.symm.trans (toOption_eq_some.mp seen))
  exact ⟨result, between, composed, atFirst, atSecond, tracked⟩

end Ledger

end CircuitNames
