import CircuitNames.Proofs.ScopeHistories

namespace CircuitNames

namespace Scope

/-- A base with a delimiter after it, some number of times. -/
def padded (base delimiter : String) (count : Nat) :
    String := base ++ String.join (List.replicate count delimiter)

theorem extended_eq_padded (base delimiter : String) (index : Nat) :
    extended base delimiter index = padded base delimiter (index + 1) := rfl

theorem padded_one (base delimiter : String) : padded base delimiter 1 = base ++ delimiter := by
  simp [padded, String.join]

theorem padded_succ (base delimiter : String) (count : Nat) :
    padded base delimiter (count + 1) = padded base delimiter count ++ delimiter := by
  refine String.toList_injective ?_
  simp [padded, String.toList_join, List.replicate_succ']

/-- A candidate that is padded at all differs from the bare one, unless the delimiter is empty. -/
theorem padded_ne {base delimiter : String} (mark : delimiter ≠ "") {count : Nat} (positive : 0 < count) :
    padded base delimiter count ≠ base := by
  obtain ⟨index, rfl⟩ := Nat.exists_eq_add_one.mpr positive
  intro same
  have lengths := congrArg String.length same
  rw [padded_succ, String.length_append, padded, String.length_append] at lengths
  have : delimiter.length ≠ 0 := fun zero => mark (String.length_eq_zero_iff.mp zero)
  omega

/-- How a candidate is lengthened until it is free, if it ever is: as long as it is taken it gets one
delimiter more. -/
inductive Lengthens (taken : List String) (delimiter : String) : String → String → Prop
  | found {candidate : String} (free : candidate ∉ taken) : Lengthens taken delimiter candidate candidate
  | longer {candidate name : String} (occupied : candidate ∈ taken)
      (later : Lengthens taken delimiter (candidate ++ delimiter) name) :
        Lengthens taken delimiter candidate name

variable {taken : List String} {base delimiter candidate name other : String}

theorem Lengthens.unique (ends : Lengthens taken delimiter candidate name)
    (alsoEnds : Lengthens taken delimiter candidate other) : name = other := by
  induction ends with
  | found free =>
    cases alsoEnds with
    | found => rfl
    | longer occupied => exact absurd occupied free
  | longer occupied _ ih =>
    cases alsoEnds with
    | found free => exact absurd occupied free
    | longer _ later => exact ih later

/-- The candidates that lengthening comes past are those of the search by number. -/
theorem lengthens_of_search {index last : Nat} (search : Search (extended base delimiter) taken index last) :
    Lengthens taken delimiter (extended base delimiter index) (extended base delimiter last) := by
  induction search with
  | found free => exact .found free
  | passed occupied _ ih =>
    refine .longer occupied ?_
    rwa [extended_eq_padded, padded_succ] at ih

/-- The number of delimiters that an allocated name ends in is the least one that makes it free. -/
theorem allocate_search (scope : Scope) (base : String) (avoid : List String) (mark : delimiter ≠ "") :
    ∃ index, (scope.allocate base avoid delimiter).1 = extended base delimiter index ∧
      Search (extended base delimiter) (scope.names ++ avoid) 0 index :=
  ⟨_, rfl, search_iff.mpr ⟨Nat.zero_le _, scope.allocate_not_mem base avoid mark,
    fun _ above below => mem_of_lt_firstFree above below⟩⟩

/-- Each candidate that is taken gets one delimiter more, so where the search ends is the least number of
delimiters that makes a free name. -/
theorem isLeast_of_search {index : Nat} (search : Search (extended base delimiter) taken 0 index) :
    IsLeast {count | 0 < count ∧ padded base delimiter count ∉ taken} (index + 1) := by
  obtain ⟨-, free, passed⟩ := search_iff.mp search
  refine ⟨⟨index.succ_pos, free⟩, fun count ⟨positive, alsoFree⟩ => ?_⟩
  obtain ⟨fewer, rfl⟩ := Nat.exists_eq_add_one.mpr positive
  exact Nat.not_lt.mp fun below => alsoFree (passed fewer (Nat.zero_le _) (Nat.lt_of_succ_lt_succ below))

theorem counters_allocate (scope : Scope) (base : String) (avoid : List String) (delimiter : String) :
    (scope.allocate base avoid delimiter).2.counters = scope.counters := counters_reserve scope _

/-- Whatever the scope, the base and the names to avoid, with a delimiter that has a character lengthening the
base ends, and what it ends with is allocated: the base with the fewest delimiters after it, at least one,
that is neither in the scope nor to be avoided. It is the only name that the scope gains, and nothing else in
the scope changes. So the name that the rule against keywords puts in the place of a keyword is no keyword,
was not in the scope, and is another one. -/
theorem allocate_shortest (scope : Scope) (base : String) (avoid : List String) {delimiter : String}
    (mark : delimiter ≠ "") :
    (∃ count, (scope.allocate base avoid delimiter).1 = padded base delimiter count ∧
      IsLeast {count | 0 < count ∧ padded base delimiter count ∉ scope.names ∧
        padded base delimiter count ∉ avoid} count) ∧
    (∀ name, Lengthens (scope.names ++ avoid) delimiter (base ++ delimiter) name ↔
      name = (scope.allocate base avoid delimiter).1) ∧
    (∀ name, name ∈ (scope.allocate base avoid delimiter).2.names ↔
      name = (scope.allocate base avoid delimiter).1 ∨ name ∈ scope.names) ∧
    (scope.allocate base avoid delimiter).2.counters = scope.counters ∧
    ∀ keywords name, (name ∉ keywords → Rule.avoidKeywords keywords name scope = (none, scope)) ∧
      (name ∈ keywords → ∃ fresh after, Rule.avoidKeywords keywords name scope = (some fresh, after) ∧
        fresh ∉ keywords ∧ fresh ∉ scope.names ∧ fresh ≠ name) := by
  obtain ⟨index, allocated, search⟩ := scope.allocate_search base avoid mark
  have least := isLeast_of_search search
  simp only [List.mem_append, not_or] at least
  have lengthened := lengthens_of_search search
  rw [extended_eq_padded, padded_one, ← allocated] at lengthened
  refine ⟨⟨index + 1, allocated, least⟩,
    fun name => ⟨fun ends => ends.unique lengthened, fun same => same ▸ lengthened⟩,
    fun name => mem_allocate, scope.counters_allocate base avoid delimiter, fun keywords name =>
      ⟨fun noWord => ?_, fun isWord => ?_⟩⟩
  · simp [Rule.avoidKeywords, noWord]
  · have free := scope.allocate_not_mem name keywords (show "_" ≠ "" by decide)
    rw [List.mem_append, not_or] at free
    refine ⟨_, (scope.allocate name keywords "_").2, by simp [Rule.avoidKeywords, isWord], free.2, free.1, ?_⟩
    exact padded_ne (by decide) (Nat.succ_pos _)

/-- A base that ends like the delimiter, and two candidates that are taken. -/
theorem allocate_sample_shortest : "--" ≠ "" ∧
    Lengthens (["x---"] ++ ["x-----"]) "--" "x---" "x-------" ∧
    ((ofNames ["x---"]).allocate "x-" ["x-----"] "--").1 = padded "x-" "--" 3 := by
  have allocated : ((ofNames ["x---"]).allocate "x-" ["x-----"] "--").1 = "x-------" := by decide +kernel
  obtain ⟨-, ends, -⟩ := (ofNames ["x---"]).allocate_shortest "x-" ["x-----"] (show "--" ≠ "" by decide)
  exact ⟨by decide, (ends _).mpr allocated.symm, allocated⟩

end Scope

end CircuitNames
