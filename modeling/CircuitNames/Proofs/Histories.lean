import CircuitNames.Proofs.ComposedLedgers

namespace CircuitNames.Ledger

/-- The ledgers composed in the order of the passes. -/
def composeAll : List Ledger → Except Fault Ledger
  | [] => .ok .empty
  | own :: earlier => do (← composeAll earlier).compose own

/-- Whether a pass met an address under the very names it is asked for by, and renamed it. -/
def recorded (history : List Ledger) (target : Target) : Bool := history.any (·.contains target)

/-- The name that a component of an address in the first circuit has after the passes: each pass meets it
under the names that the earlier ones left. -/
def currentName : List Ledger → Target → String
  | [], target => target.terminalName
  | own :: earlier, target => own.name ((Address.ofTarget target).renamed (currentName earlier)).target

/-- The name that the composed ledgers have for it: until it is recorded, each pass is asked for it under the
names of the first circuit. -/
def composedName : List Ledger → Target → String
  | [], target => target.terminalName
  | own :: earlier, target =>
    if recorded earlier target then own.name ((Address.ofTarget target).renamed (composedName earlier)).target
    else own.name target

/-- The composed ledgers have the name of each component. -/
def Agrees (history : List Ledger) (address : Address) : Prop :=
  ∀ part ∈ address.components, composedName history part.target = currentName history part.target

/-- No pass takes a component that is not recorded yet for another one, or misses it, because of the names it
had in the first circuit. -/
def Unstranded : List Ledger → Address → Prop
  | [], _ => True
  | own :: earlier, address => Unstranded earlier address ∧ ∀ part ∈ address.components,
      recorded earlier part.target = true ∨
        own.name part.target = own.name (part.renamed (currentName earlier)).target

variable {own : Ledger} {earlier history : List Ledger} {address part : Address} {shared : Ledger}

/-- The current name comes from the ledgers of the passes of a run, the latest first: each ledger is asked
about the name that the earlier ones have made. -/
theorem currentName_cons (own : Ledger) (earlier : List Ledger) (address : Address) :
    currentName (own :: earlier) address.target =
      own.name (address.renamed (currentName earlier)).target := by
  rw [currentName, Address.ofTarget_target]

/-- The composition asks a later ledger in the same way, but only about what some earlier ledger has recorded.
-/
theorem composedName_cons (own : Ledger) (earlier : List Ledger) (address : Address) :
    composedName (own :: earlier) address.target =
      if recorded earlier address.target then own.name (address.renamed (composedName earlier)).target
      else own.name address.target := by
  rw [composedName, Address.ofTarget_target]

/-- A pass renames what the earlier ones left. -/
theorem renamed_currentName (own : Ledger) (earlier : List Ledger) (address : Address) :
    (address.renamed (currentName earlier)).renamed own.name =
      address.renamed (currentName (own :: earlier)) :=
  Address.renamed_renamed_iff.mpr fun part _ => (currentName_cons own earlier part).symm

/-- Ledgers of passes compose, and the result has the names that the composition has for each address. -/
theorem composeAll_eq_ok (regular : ∀ own ∈ history, own.Regular)
    (composed : composeAll history = .ok shared) :
    shared.Regular ∧ (∀ target, shared.contains target = recorded history target) ∧
      ∀ address : Address, address.Identified →
        shared.name address.target = composedName history address.target := by
  induction history generalizing shared with
  | nil =>
    obtain rfl := Except.ok.inj composed
    exact ⟨regular_empty, fun _ => rfl, fun _ _ => name_of_not_contains rfl⟩
  | cons own earlier ih =>
    obtain ⟨first, others⟩ := List.forall_mem_cons.mp regular
    obtain ⟨before, atBefore, composed⟩ := bind_eq_ok.mp composed
    obtain ⟨beforeRegular, contains, named⟩ := ih others atBefore
    refine ⟨beforeRegular.compose first composed, fun target => ?_, fun address names => ?_⟩
    · rw [beforeRegular.contains_compose first composed, contains, recorded, recorded,
        List.any_cons, Bool.or_comm]
    · have same : address.renamed before.name = address.renamed (composedName earlier) :=
        Address.renamed_eq_iff.mpr fun part inside => named part (names.component inside)
      rw [beforeRegular.name_compose first composed names, composedName_cons, contains, same]

/-- The composed ledgers track an address to where it has come just when they have the name of each
component. -/
theorem track_composeAll (regular : ∀ own ∈ history, own.Regular) (composed : composeAll history = .ok shared)
    (names : address.Identified) :
    shared.track address.target = .ok (address.renamed (currentName history)).target ↔
      Agrees history address := by
  obtain ⟨sharedRegular, -, named⟩ := composeAll_eq_ok regular composed
  have same : address.renamed shared.name = address.renamed (composedName history) :=
    Address.renamed_eq_iff.mpr fun part inside => named part (names.component inside)
  rw [sharedRegular.plain.track_eq names, same, Agrees, ← Address.renamed_eq_iff]
  exact ⟨fun tracked => Address.target_injective (Except.ok.inj tracked), fun agrees => by rw [agrees]⟩

/-- What no pass has stranded so far is tracked on by the next pass just when that does not strand it
either. -/
theorem agrees_cons (agrees : Agrees earlier address) :
    Agrees (own :: earlier) address ↔ ∀ part ∈ address.components, recorded earlier part.target = true ∨
        own.name part.target = own.name (part.renamed (currentName earlier)).target := by
  refine forall₂_congr fun part inside => ?_
  have same : part.renamed (composedName earlier) = part.renamed (currentName earlier) :=
    Address.renamed_eq_iff.mpr fun inner deeper => agrees inner (Address.components_trans inside deeper)
  rw [composedName_cons, currentName_cons, same]
  cases recorded earlier part.target <;> simp

theorem Unstranded.agrees (unstranded : Unstranded history address) : Agrees history address := by
  induction history with
  | nil => exact fun _ _ => rfl
  | cons own earlier ih => exact (agrees_cons (ih unstranded.1)).mpr unstranded.2

end CircuitNames.Ledger
