import CircuitNames.Circuit.Basic

namespace CircuitNames

/-- Reserved names, and for each base that numbers were appended to, the number to try next. -/
structure Scope where
  names : List String
  counters : List (String × Nat)
deriving DecidableEq, Repr

namespace Scope

def empty : Scope := ⟨[], []⟩

def contains (scope : Scope) (name : String) : Bool := scope.names.contains name

/-- Marks a name as used. -/
def reserve (scope : Scope) (name : String) : Scope :=
  if scope.contains name then scope else { scope with names := name :: scope.names }

theorem contains_iff {scope : Scope} {name : String} :
    scope.contains name = true ↔ name ∈ scope.names := by
  simp [contains]

@[simp] theorem mem_reserve {scope : Scope} {name other : String} :
    other ∈ (scope.reserve name).names ↔ other = name ∨ other ∈ scope.names := by
  unfold reserve
  split
  next taken =>
    constructor
    · exact Or.inr
    · rintro (rfl | inside)
      · exact contains_iff.1 taken
      · exact inside
  next => simp

/-- A scope in which some names are in use from the first. -/
def ofNames (names : List String) : Scope := names.foldl reserve empty

@[simp] theorem mem_ofNames {names : List String} {name : String} :
    name ∈ (ofNames names).names ↔ name ∈ names := by
  have grown (scope : Scope) :
      name ∈ (names.foldl reserve scope).names ↔ name ∈ scope.names ∨ name ∈ names := by
    induction names generalizing scope with
    | nil => simp
    | cons first rest ih =>
      simp only [List.foldl_cons, ih, mem_reserve, List.mem_cons]
      constructor
      · rintro ((rfl | old) | later) <;> simp [*]
      · rintro (old | rfl | later) <;> simp [*]
  have start := grown empty
  simp only [empty, List.not_mem_nil, false_or] at start
  exact start

/-- The scope of the modules; that of the circuit starts out alike. -/
def ofCircuit (circuit : Circuit) : Scope := ofNames (circuit.modules.map Module.name)

/-- The scope of what a module declares, at any depth of its statements. -/
def ofModule (module : RegularModule) : Scope := ofNames module.declaredNames

/-- The scope of the ports of a memory. It has nothing to do with that of its module. -/
def ofMemory (decl : MemDecl) : Scope := ofNames decl.portNames

/-- The first index from `index` on whose candidate is not taken. A candidate that is taken leaves the
list, so the search ends. -/
def firstFree (candidate : Nat → String) (taken : List String) (index : Nat) : Nat :=
  if h : candidate index ∈ taken then
    firstFree candidate (taken.erase (candidate index)) (index + 1)
  else index
termination_by taken.length
decreasing_by
  have := List.length_pos_of_mem h
  rw [List.length_erase_of_mem h]
  omega

theorem le_firstFree (candidate : Nat → String) (taken : List String) (index : Nat) :
    index ≤ firstFree candidate taken index := by
  fun_induction firstFree candidate taken index with
  | case1 taken index inside ih => omega
  | case2 taken index outside => exact Nat.le_refl _

/-- Every candidate that the search passes over is taken. -/
theorem mem_of_lt_firstFree {candidate : Nat → String} {taken : List String} {index passed : Nat}
    (above : index ≤ passed) (below : passed < firstFree candidate taken index) :
    candidate passed ∈ taken := by
  fun_induction firstFree candidate taken index with
  | case1 taken index inside ih =>
    rcases Nat.eq_or_lt_of_le above with rfl | later
    · exact inside
    · exact List.mem_of_mem_erase (ih later below)
  | case2 taken index outside => omega

/-- Where no two candidates are equal, the one that is found is free. -/
theorem firstFree_not_mem {candidate : Nat → String}
    (distinct : ∀ i j, candidate i = candidate j → i = j) (taken : List String) (index : Nat) :
    candidate (firstFree candidate taken index) ∉ taken := by
  fun_induction firstFree candidate taken index with
  | case1 taken index inside ih =>
    intro again
    have later := le_firstFree candidate (taken.erase (candidate index)) (index + 1)
    refine ih ((List.mem_erase_of_ne fun same => ?_).2 again)
    have := distinct _ _ same
    omega
  | case2 taken index outside => exact outside

/-- A base with a number appended. -/
def numbered (base : String) (index : Nat) : String := s!"{base}_{index}"

theorem numbered_inj {base : String} {i j : Nat} (same : numbered base i = numbered base j) :
    i = j := by
  have digits : Nat.toDigits 10 i = Nat.toDigits 10 j := by
    have := congrArg String.toList same
    simpa [numbered, String.toList_append, toString, Nat.toList_repr] using this
  rw [← Nat.ofDigitChars_toDigits (b := 10) (n := i) (by decide) (by decide), digits,
    Nat.ofDigitChars_toDigits (by decide) (by decide)]

/-- The base if it is free, otherwise the base with the first free number, counting on from the last
number handed out for it. -/
def newName (scope : Scope) (base : String) : String × Scope :=
  if scope.contains base then
    let index := firstFree (numbered base) scope.names ((scope.counters.lookup base).getD 0)
    let name := numbered base index
    (name, { names := name :: scope.names, counters := (base, index + 1) :: scope.counters })
  else (base, scope.reserve base)

/-- A name handed out was not in use before. -/
theorem newName_not_mem (scope : Scope) (base : String) : (scope.newName base).1 ∉ scope.names := by
  unfold newName
  split
  next => exact firstFree_not_mem (fun _ _ => numbered_inj) _ _
  next free => exact fun inside => free (contains_iff.2 inside)

/-- A name that is handed out is in use from then on, and nothing else changes. -/
@[simp] theorem mem_newName {scope : Scope} {base name : String} :
    name ∈ (scope.newName base).2.names ↔ name = (scope.newName base).1 ∨ name ∈ scope.names := by
  unfold newName
  split
  next => exact List.mem_cons
  next => exact mem_reserve

/-- The base with the delimiter after it, once more than `index` times. -/
def extended (base delimiter : String) (index : Nat) : String :=
  base ++ String.join (List.replicate (index + 1) delimiter)

theorem extended_inj {base delimiter : String} (mark : delimiter ≠ "") {i j : Nat}
    (same : extended base delimiter i = extended base delimiter j) : i = j := by
  have lengths := congrArg String.length same
  have positive : 0 < delimiter.length := by
    rcases Nat.eq_zero_or_pos delimiter.length with zero | positive
    · exact absurd (String.length_eq_zero_iff.1 zero) mark
    · exact positive
  simp only [extended, String.length_append, String.length_join, List.map_replicate,
    List.sum_replicate_nat, Nat.add_left_cancel_iff] at lengths
  have := Nat.eq_of_mul_eq_mul_right positive lengths
  omega

/-- The base with the fewest delimiters after it, at least one, that is neither reserved here nor one
of the other names to avoid. -/
def allocate (scope : Scope) (base : String) (avoid : List String) (delimiter : String) :
    String × Scope :=
  let name := extended base delimiter
    (firstFree (extended base delimiter) (scope.names ++ avoid) 0)
  (name, scope.reserve name)

/-- An allocated name was in use nowhere before. -/
theorem allocate_not_mem (scope : Scope) (base : String) (avoid : List String) {delimiter : String}
    (mark : delimiter ≠ "") :
    (scope.allocate base avoid delimiter).1 ∉ scope.names ++ avoid :=
  firstFree_not_mem (fun _ _ => extended_inj mark) _ _

@[simp] theorem mem_allocate {scope : Scope} {base name : String} {avoid : List String}
    {delimiter : String} :
    name ∈ (scope.allocate base avoid delimiter).2.names ↔
      name = (scope.allocate base avoid delimiter).1 ∨ name ∈ scope.names :=
  mem_reserve

end Scope

end CircuitNames
