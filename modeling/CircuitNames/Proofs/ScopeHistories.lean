import CircuitNames.Proofs.LaterScopes
import Mathlib.Order.Bounds.Defs

namespace CircuitNames

namespace Scope

/-- How a search through numbered candidates goes until it ends, if it does: those that are taken are passed
over, and the first one that is free is found. -/
inductive Search (candidate : Nat → String) (taken : List String) : Nat → Nat → Prop
  | found {index : Nat} (free : candidate index ∉ taken) : Search candidate taken index index
  | passed {index last : Nat} (occupied : candidate index ∈ taken)
      (later : Search candidate taken (index + 1) last) :
      Search candidate taken index last

/-- A search ends at the first candidate that is free. -/
theorem search_iff {candidate : Nat → String} {taken : List String} {index last : Nat} :
    Search candidate taken index last ↔
      index ≤ last ∧ candidate last ∉ taken ∧ ∀ other, index ≤ other → other < last →
        candidate other ∈ taken := by
  constructor
  · intro search
    induction search with
    | found free => exact ⟨Nat.le_refl _, free, fun other above below => absurd below (Nat.not_lt.mpr above)⟩
    | @passed index last occupied _ ih =>
      obtain ⟨above, free, between⟩ := ih
      refine ⟨Nat.le_of_succ_le above, free, fun other after before => ?_⟩
      rcases Nat.eq_or_lt_of_le after with rfl | later
      · exact occupied
      · exact between other later before
  · rintro ⟨above, free, between⟩
    obtain ⟨steps, rfl⟩ := Nat.exists_eq_add_of_le above
    induction steps generalizing index with
    | zero => exact .found free
    | succ steps ih =>
      have next : index + (steps + 1) = index + 1 + steps := by omega
      rw [next] at free above between ⊢
      refine .passed (between index (Nat.le_refl _) (by omega))
        (ih (Nat.le_add_right _ _) free fun other after before => ?_)
      exact between other (Nat.le_of_succ_le after) before

/-- The name that a base comes to beside names that are taken: the base itself if it is free, otherwise the
base with the least number that makes it free. -/
def LeastFree (taken : List String) (base name : String) : Prop :=
  if base ∈ taken then ∃ index, IsLeast {number | numbered base number ∉ taken} index ∧
    name = numbered base index
  else name = base

theorem LeastFree.congr {taken others : List String} {base name : String} (least : LeastFree taken base name)
    (same : ∀ other, other ∈ taken ↔ other ∈ others) : LeastFree others base name := by
  unfold LeastFree at least ⊢
  simpa only [same] using least

/-- The number from which a search for a base goes on. -/
def counter (scope : Scope) (base : String) : Nat := (scope.counters.lookup base).getD 0

/-- In a scope that counts what it has handed out, the search from the remembered number and the search from
zero end at the number of the new name. -/
theorem Counted.searches {scope : Scope} (counted : scope.Counted) {base : String}
    (taken : base ∈ scope.names) :
    ∃ index, (scope.newName base).1 = numbered base index ∧
      Search (numbered base) scope.names (scope.counter base) index ∧
        Search (numbered base) scope.names 0 index := by
  let index := firstFree (numbered base) scope.names (scope.counter base)
  have free : numbered base index ∉ scope.names := firstFree_not_mem (fun _ _ => numbered_inj) _ _
  have between : ∀ other, scope.counter base ≤ other → other < index → numbered base other ∈ scope.names :=
    fun _ after before => mem_of_lt_firstFree after before
  refine ⟨index, ?_, search_iff.mpr ⟨le_firstFree _ _ _, free, between⟩,
    search_iff.mpr ⟨Nat.zero_le _, free, fun other _ before => ?_⟩⟩
  · rw [Scope.newName, if_pos (contains_iff.mpr taken)]
    rfl
  · rcases Nat.lt_or_ge other (scope.counter base) with passed | searched
    · exact counted base other passed
    · exact between other searched before

theorem newName_of_free {scope : Scope} {base : String} (free : base ∉ scope.names) :
    (scope.newName base).1 = base := by
  rw [newName, if_neg fun inside => free (contains_iff.mp inside)]

/-- In a scope that counts what it has handed out, a new name is the first one there is. -/
theorem Counted.leastFree {scope : Scope} (counted : scope.Counted) (base : String) :
    LeastFree scope.names base (scope.newName base).1 := by
  unfold LeastFree
  split
  next taken =>
    obtain ⟨index, same, -, fromZero⟩ := counted.searches taken
    obtain ⟨-, free, below⟩ := search_iff.mp fromZero
    refine ⟨index, ⟨free, fun other otherFree => ?_⟩, same⟩
    exact Nat.not_lt.mp fun less => otherFree (below other (Nat.zero_le _) less)
  next free => exact newName_of_free free

/-- Scopes with some first names, after any requests, and the names they have handed out so far, the latest
first. A name is allocated where some number of delimiters makes it free; only a delimiter without a character
can fail to do that. -/
inductive History (seed : List String) : List String → Scope → Prop
  | start : History seed [] (ofNames seed)
  | reserve {given : List String} {scope : Scope} (history : History seed given scope) (name : String) :
      History seed given (scope.reserve name)
  | newName {given : List String} {scope : Scope} (history : History seed given scope) (base : String) :
      History seed ((scope.newName base).1 :: given) (scope.newName base).2
  | allocate {given : List String} {scope : Scope} (history : History seed given scope) (base : String)
      (avoid : List String) (delimiter : String)
      (ends : ∃ index, extended base delimiter index ∉ scope.names ++ avoid) :
      History seed ((scope.allocate base avoid delimiter).1 :: given) (scope.allocate base avoid delimiter).2

theorem allocate_free {scope : Scope} {base delimiter : String} {avoid : List String}
    (ends : ∃ index, extended base delimiter index ∉ scope.names ++ avoid) :
    (scope.allocate base avoid delimiter).1 ∉ scope.names ++ avoid := by
  by_cases mark : delimiter = ""
  · subst mark
    have same (index : Nat) : extended base "" index = base := by
      refine String.toList_injective ?_
      simp [extended, String.toList_join]
    obtain ⟨index, free⟩ := ends
    rw [same] at free
    simpa only [allocate, same] using free
  · exact scope.allocate_not_mem base avoid mark

namespace History

variable {seed given : List String} {scope : Scope}

/-- The number remembered for a base only saves work: all numbered names below it are taken, after any history
of requests. -/
theorem counted (history : History seed given scope) : scope.Counted := by
  induction history with
  | start => exact counted_ofNames seed
  | reserve _ name ih => exact ih.reserve name
  | newName _ base ih => exact ih.newName base
  | allocate _ base avoid delimiter _ ih => exact ih.reserve _

theorem seed_subset (history : History seed given scope) : seed ⊆ scope.names := by
  induction history with
  | start => exact fun _ inside => mem_ofNames.mpr inside
  | reserve _ name ih => exact fun _ inside => mem_reserve.mpr (Or.inr (ih inside))
  | newName _ base ih => exact fun _ inside => mem_newName.mpr (Or.inr (ih inside))
  | allocate _ base avoid delimiter _ ih => exact fun _ inside => mem_allocate.mpr (Or.inr (ih inside))

theorem given_subset (history : History seed given scope) : given ⊆ scope.names := by
  induction history with
  | start => exact List.nil_subset _
  | reserve _ name ih => exact fun _ inside => mem_reserve.mpr (Or.inr (ih inside))
  | newName _ base ih =>
    exact List.cons_subset.mpr
      ⟨mem_newName.mpr (Or.inl rfl), fun _ inside => mem_newName.mpr (Or.inr (ih inside))⟩
  | allocate _ base avoid delimiter _ ih =>
    exact List.cons_subset.mpr
      ⟨mem_allocate.mpr (Or.inl rfl), fun _ inside => mem_allocate.mpr (Or.inr (ih inside))⟩

/-- What is handed out was not in the scope before, so it is none of what was handed out earlier and none of
the first names. -/
theorem given_apart (history : History seed given scope) : given.Nodup ∧ ∀ name ∈ given, name ∉ seed := by
  induction history with
  | start => exact ⟨List.nodup_nil, List.forall_mem_nil _⟩
  | reserve _ name ih => exact ih
  | @newName given scope history base ih =>
    have fresh := scope.newName_not_mem base
    exact ⟨List.nodup_cons.mpr ⟨fun again => fresh (history.given_subset again), ih.1⟩,
      List.forall_mem_cons.mpr ⟨fun first => fresh (history.seed_subset first), ih.2⟩⟩
  | @allocate given scope history base avoid delimiter ends ih =>
    have fresh := fun inside => allocate_free ends (List.mem_append_left avoid inside)
    exact ⟨List.nodup_cons.mpr ⟨fun again => fresh (history.given_subset again), ih.1⟩,
      List.forall_mem_cons.mpr ⟨fun first => fresh (history.seed_subset first), ih.2⟩⟩

end History

/-- After any history a new name is the first one there is. A base that is free is handed out itself;
otherwise the search from the number remembered for the base ends, and it ends where the search from zero
does, at the least number that makes the base free. The name was not in the scope before, it is the only one
that the scope gains, and no name that a scope hands out is handed out again or was there at first. -/
theorem newName_searches_from_zero {seed given : List String} {scope : Scope}
    (history : History seed given scope) :
    (∀ base,
      (base ∉ scope.names → (scope.newName base).1 = base) ∧
      (base ∈ scope.names → ∃ index, (scope.newName base).1 = numbered base index ∧
        Search (numbered base) scope.names (scope.counter base) index ∧
          Search (numbered base) scope.names 0 index ∧
        IsLeast {number | numbered base number ∉ scope.names} index) ∧
      (scope.newName base).1 ∉ scope.names ∧
      ∀ name, name ∈ (scope.newName base).2.names ↔ name = (scope.newName base).1 ∨ name ∈ scope.names) ∧
    given.Nodup ∧ ∀ name ∈ given, name ∉ seed := by
  refine ⟨fun base => ⟨newName_of_free, fun taken => ?_, scope.newName_not_mem base, fun _ => mem_newName⟩,
    history.given_apart⟩
  obtain ⟨index, same, fromCounter, fromZero⟩ := history.counted.searches taken
  have least := history.counted.leastFree base
  rw [LeastFree, if_pos taken] at least
  obtain ⟨other, isLeast, alsoSame⟩ := least
  obtain rfl := numbered_inj (same.symm.trans alsoSame)
  exact ⟨index, same, fromCounter, fromZero, isLeast⟩

namespace Sample

/-- A base and its first number are there at first; the number after the next one is reserved before it is
reached. -/
def seed : List String := ["a", "a_0"]

def scope : Scope := ((((ofNames seed).newName "a_0").2.newName "a").2).reserve "a_2"

theorem history : History seed ["a_1", "a_0_0"] scope := by
  have given : ((ofNames seed).newName "a_0").1 = "a_0_0" ∧
      (((ofNames seed).newName "a_0").2.newName "a").1 = "a_1" := by
    decide +kernel
  have first : History seed [] (ofNames seed) := .start
  have history := ((first.newName "a_0").newName "a").reserve "a_2"
  rwa [given.1, given.2] at history

end Sample

theorem newName_sample_search : History Sample.seed ["a_1", "a_0_0"] Sample.scope ∧
    Sample.scope.counter "a" = 2 ∧
    Search (numbered "a") Sample.scope.names 2 3 ∧ Search (numbered "a") Sample.scope.names 0 3 := by
  have state : "a" ∈ Sample.scope.names ∧ Sample.scope.counter "a" = 2 ∧
      (Sample.scope.newName "a").1 = numbered "a" 3 := by
    decide +kernel
  obtain ⟨each, -⟩ := newName_searches_from_zero Sample.history
  obtain ⟨index, same, search, fromZero, -⟩ := (each "a").2.1 state.1
  obtain rfl := numbered_inj (state.2.2.symm.trans same)
  exact ⟨Sample.history, state.2.1, state.2.1 ▸ search, fromZero⟩

end Scope

end CircuitNames
