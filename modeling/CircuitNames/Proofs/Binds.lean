import Mathlib.Data.List.Forall2

namespace CircuitNames

variable {ε σ α β : Type}

/-- A sequence of steps succeeds when the first step does and the rest does from its result. -/
theorem bind_eq_ok {x : Except ε α} {f : α → Except ε β} {b : β} :
    (x >>= f) = .ok b ↔ ∃ a, x = .ok a ∧ f a = .ok b := by
  cases x with
  | error fault => simp [bind, Except.bind]
  | ok a => simp [bind, Except.bind]

theorem bind_ok {x : Except ε α} {f : α → Except ε β} {a : α} {b : β} (first : x = .ok a)
    (later : f a = .ok b) :
    (x >>= f) = .ok b := bind_eq_ok.mpr ⟨a, first, later⟩

/-- A sequence of steps fails with the first fault in it. -/
theorem bind_eq_error {x : Except ε α} {f : α → Except ε β} {fault : ε} :
    (x >>= f) = .error fault ↔ x = .error fault ∨ ∃ a, x = .ok a ∧ f a = .error fault := by
  cases x <;> simp [bind, Except.bind]

theorem mapError_eq_ok {ε' : Type} {f : ε → ε'} {x : Except ε α} {a : α} :
    x.mapError f = .ok a ↔ x = .ok a := by
  cases x <;> simp [Except.mapError]

theorem toOption_eq_some {x : Except ε α} {a : α} : x.toOption = some a ↔ x = .ok a := by
  cases x <;> simp [Except.toOption]

/-- A step of a state that can fail runs to the end just when both of its halves do. -/
theorem run_bind_eq_ok {x : StateT σ (Except ε) α} {f : α → StateT σ (Except ε) β}
    {before after : σ} {b : β} :
    (x >>= f) before = .ok (b, after) ↔
      ∃ a between, x before = .ok (a, between) ∧ f a between = .ok (b, after) := by
  constructor
  · intro run
    obtain ⟨⟨a, between⟩, first, second⟩ := bind_eq_ok.mp run
    exact ⟨a, between, first, second⟩
  · rintro ⟨a, between, first, second⟩
    exact bind_eq_ok.mpr ⟨(a, between), first, second⟩

theorem run_pure_eq_ok {before after : σ} {a b : α} :
    (pure a : StateT σ (Except ε) α) before = .ok (b, after) ↔ b = a ∧ after = before := by
  change (Except.ok (a, before) : Except ε (α × σ)) = .ok (b, after) ↔ _
  simp [eq_comm]

/-- What only asks leaves the state as it is. -/
theorem run_lift_eq_ok {x : Except ε α} {before after : σ} {a : α} :
    (liftM x : StateT σ (Except ε) α) before = .ok (a, after) ↔ x = .ok a ∧ before = after := by
  change (x >>= fun value => Except.ok (value, before)) = _ ↔ _
  rw [bind_eq_ok]
  constructor
  · rintro ⟨value, asked, same⟩
    obtain ⟨rfl, rfl⟩ := Prod.mk.inj (Except.ok.inj same)
    exact ⟨asked, rfl⟩
  · rintro ⟨asked, rfl⟩
    exact ⟨a, asked, rfl⟩

theorem exists_of_mem_left {R : α → β → Prop} {items : List α} {results : List β}
    (each : List.Forall₂ R items results) {item : α} (inside : item ∈ items) :
    ∃ result ∈ results, R item result := by
  induction each with
  | nil => cases inside
  | cons first _ ih =>
    rcases List.mem_cons.mp inside with rfl | later
    · exact ⟨_, List.mem_cons_self, first⟩
    · obtain ⟨result, member, related⟩ := ih later
      exact ⟨result, List.mem_cons_of_mem _ member, related⟩

theorem exists_of_mem_right {R : α → β → Prop} {items : List α} {results : List β}
    (each : List.Forall₂ R items results) {result : β} (inside : result ∈ results) :
    ∃ item ∈ items, R item result :=
  exists_of_mem_left each.flip inside

theorem getElem?_of_forall₂_left {R : α → β → Prop} {items : List α} {results : List β}
    (each : List.Forall₂ R items results) {index : Nat} {item : α} (found : items[index]? = some item) :
    ∃ result, results[index]? = some result ∧ R item result := by
  induction each generalizing index with
  | nil => simp at found
  | cons first _ ih =>
    cases index with
    | zero => exact ⟨_, rfl, Option.some.inj found ▸ first⟩
    | succ index => exact ih found

theorem getElem?_of_forall₂_right {R : α → β → Prop} {items : List α} {results : List β}
    (each : List.Forall₂ R items results) {index : Nat} {result : β} (found : results[index]? = some result) :
    ∃ item, items[index]? = some item ∧ R item result :=
  getElem?_of_forall₂_left each.flip found

/-- To relate items to results in another way, it may be used that they are among the items. -/
theorem forall₂_imp_of_mem {R S : α → β → Prop} {items : List α} {results : List β}
    (each : List.Forall₂ R items results) (next : ∀ item ∈ items, ∀ result, R item result → S item result) :
    List.Forall₂ S items results :=
  ((List.forall₂_and_left _ _).mpr ⟨fun _ member => member, each⟩).imp fun item result ⟨member, related⟩ =>
    next item member result related

theorem map_eq_of_forall₂ {γ : Type} {f : α → γ} {g : β → γ} {items : List α} {results : List β}
    (each : List.Forall₂ (fun item result => g result = f item) items results) :
    results.map g = items.map f := by
  induction each with
  | nil => rfl
  | cons first _ ih => rw [List.map_cons, List.map_cons, first, ih]

theorem eq_map_of_forall₂ {f : α → β} {items : List α} {results : List β}
    (each : List.Forall₂ (fun item result => result = f item) items results) : results = items.map f := by
  simpa using map_eq_of_forall₂ (g := id) each

/-- Where a key has one value only, looking it up is the same as being listed under it. -/
theorem lookup_eq_some_iff_mem {α β : Type} [BEq α] [LawfulBEq α] {entries : List (α × β)}
    {key : α} {value : β}
    (single : ∀ first second, (key, first) ∈ entries → (key, second) ∈ entries → first = second) :
    entries.lookup key = some value ↔ (key, value) ∈ entries := by
  have listed : ∀ other, entries.lookup key = some other → (key, other) ∈ entries := by
    intro other found
    obtain ⟨before, after, rfl, -⟩ := List.lookup_eq_some_iff.mp found
    simp
  refine ⟨listed value, fun member => ?_⟩
  cases found : entries.lookup key with
  | none => simpa using List.lookup_eq_none_iff.mp found _ member
  | some other => exact congrArg some (single other value (listed other found) member)

/-- A list of steps that can fail gives a list of results just when each step gives its own. -/
theorem mapM_eq_ok {f : α → Except ε β} {items : List α} {results : List β} :
    items.mapM f = .ok results ↔ List.Forall₂ (fun item result => f item = .ok result) items results := by
  induction items generalizing results with
  | nil => simp [pure, Except.pure, eq_comm]
  | cons item rest ih =>
    simp only [List.mapM_cons, bind_eq_ok, List.forall₂_cons_left_iff]
    constructor
    · rintro ⟨first, atFirst, later, atLater, same⟩
      exact ⟨first, later, atFirst, ih.mp atLater, (Except.ok.inj same).symm⟩
    · rintro ⟨first, later, atFirst, atLater, rfl⟩
      exact ⟨first, atFirst, later, ih.mpr atLater, rfl⟩

theorem mapM_congr {m : Type → Type} [Monad m] [LawfulMonad m] {f g : α → m β} {items : List α}
    (same : ∀ item ∈ items, f item = g item) :
    items.mapM f = items.mapM g := by
  induction items with
  | nil => rfl
  | cons item rest ih =>
    obtain ⟨atFirst, atRest⟩ := List.forall_mem_cons.mp same
    rw [List.mapM_cons, List.mapM_cons, atFirst, ih atRest]

theorem exists_forall₂ {R : α → β → Prop} {items : List α} (each : ∀ item ∈ items, ∃ result, R item result) :
    ∃ results, List.Forall₂ R items results := by
  induction items with
  | nil => exact ⟨[], .nil⟩
  | cons item rest ih =>
    obtain ⟨atFirst, atRest⟩ := List.forall_mem_cons.mp each
    obtain ⟨first, gotFirst⟩ := atFirst
    obtain ⟨later, gotLater⟩ := ih atRest
    exact ⟨first :: later, .cons gotFirst gotLater⟩

/-- What is written item by item is written from a list. -/
theorem exists_map_write_eq {sort : β → Prop} {write : β → α} {items : List α}
    (each : ∀ item ∈ items, ∃ x, sort x ∧ write x = item) :
    ∃ found : List β, (∀ x ∈ found, sort x) ∧ found.map write = items := by
  induction items with
  | nil => exact ⟨[], List.forall_mem_nil _, rfl⟩
  | cons item rest ih =>
    obtain ⟨atFirst, atRest⟩ := List.forall_mem_cons.mp each
    obtain ⟨x, holds, rfl⟩ := atFirst
    obtain ⟨later, allHold, rfl⟩ := ih atRest
    exact ⟨x :: later, List.forall_mem_cons.mpr ⟨holds, allHold⟩, rfl⟩

theorem mapM_total {f : α → Except ε β} {items : List α}
    (each : ∀ item ∈ items, ∃ result, f item = .ok result) :
    ∃ results, items.mapM f = .ok results := by
  obtain ⟨results, related⟩ := exists_forall₂ each
  exact ⟨results, mapM_eq_ok.mpr related⟩

/-- A run over a list comes to its end when no item can stop it, in whatever state it is met. -/
theorem foldlM_total {f : σ → α → Except ε σ} {items : List α}
    (each : ∀ item ∈ items, ∀ state, ∃ next, f state item = .ok next) (state : σ) :
    ∃ result, items.foldlM f state = .ok result := by
  induction items generalizing state with
  | nil => exact ⟨state, rfl⟩
  | cons item rest ih =>
    obtain ⟨atFirst, atRest⟩ := List.forall_mem_cons.mp each
    obtain ⟨between, first⟩ := atFirst state
    obtain ⟨result, later⟩ := ih atRest between
    rw [List.foldlM_cons]
    exact ⟨result, bind_eq_ok.mpr ⟨between, first, later⟩⟩

/-- Where it depends on the item alone whether it stops a run, a run comes to its end just when none does. -/
theorem foldlM_total_iff {f : σ → α → Except ε σ} {passes : α → Prop}
    (step : ∀ state item, (∃ next, f state item = .ok next) ↔ passes item) {items : List α} {state : σ} :
    (∃ result, items.foldlM f state = .ok result) ↔ ∀ item ∈ items, passes item := by
  refine ⟨?_, fun each =>
    foldlM_total (fun item inside state => (step state item).mpr (each item inside)) state⟩
  rintro ⟨result, run⟩
  induction items generalizing state with
  | nil => exact List.forall_mem_nil _
  | cons item rest ih =>
    rw [List.foldlM_cons] at run
    obtain ⟨next, first, later⟩ := bind_eq_ok.mp run
    exact List.forall_mem_cons.mpr ⟨(step state item).mp ⟨next, first⟩, ih later⟩

/-- A run over a list fails at the first item that stops it. -/
theorem foldlM_eq_error {f : σ → α → Except ε σ} {items : List α} {state : σ} {fault : ε} :
    items.foldlM f state = .error fault ↔ ∃ before item after next,
      items = before ++ item :: after ∧ before.foldlM f state = .ok next ∧ f next item = .error fault := by
  constructor
  · intro run
    induction items generalizing state with
    | nil => cases run
    | cons item rest ih =>
      rw [List.foldlM_cons, bind_eq_error] at run
      rcases run with first | ⟨between, first, later⟩
      · exact ⟨[], item, rest, state, rfl, rfl, first⟩
      · obtain ⟨before, other, after, next, rfl, early, stopped⟩ := ih later
        exact ⟨item :: before, other, after, next, rfl, by rw [List.foldlM_cons, first]; exact early, stopped⟩
  · rintro ⟨before, item, after, next, rfl, early, stopped⟩
    rw [List.foldlM_append, early, bind_eq_error]
    exact Or.inr ⟨next, rfl, by rw [List.foldlM_cons, stopped]; rfl⟩

/-- A list of steps that fails has a step that fails so. -/
theorem exists_of_mapM_eq_error {f : α → Except ε β} {items : List α} {fault : ε}
    (failed : items.mapM f = .error fault) :
    ∃ item ∈ items, f item = .error fault := by
  induction items with
  | nil => cases failed
  | cons item rest ih =>
    rw [List.mapM_cons, bind_eq_error] at failed
    rcases failed with first | ⟨result, -, failed⟩
    · exact ⟨item, List.mem_cons_self, first⟩
    · rcases bind_eq_error.mp failed with later | ⟨results, -, failed⟩
      · obtain ⟨other, inside, stopped⟩ := ih later
        exact ⟨other, List.mem_cons_of_mem _ inside, stopped⟩
      · cases failed

theorem forM_eq_ok {f : α → Except ε Unit} {items : List α} :
    items.forM f = .ok () ↔ ∀ item ∈ items, f item = .ok () := by
  induction items with
  | nil => exact ⟨fun _ => List.forall_mem_nil _, fun _ => rfl⟩
  | cons item rest ih =>
    rw [List.forall_mem_cons, ← ih]
    exact bind_eq_ok.trans ⟨fun ⟨_, first, later⟩ => ⟨first, later⟩, fun ⟨first, later⟩ => ⟨(), first, later⟩⟩

/-- Checks of one item after the other fail at the first item that does not pass. -/
theorem forM_eq_error {f : α → Except ε Unit} {items : List α} {fault : ε} :
    items.forM f = .error fault ↔ ∃ before item after,
      items = before ++ item :: after ∧ (∀ other ∈ before, f other = .ok ()) ∧ f item = .error fault := by
  constructor
  · intro failed
    induction items with
    | nil => cases failed
    | cons item rest ih =>
      rcases bind_eq_error.mp failed with first | ⟨⟨⟩, first, later⟩
      · exact ⟨[], item, rest, rfl, List.forall_mem_nil _, first⟩
      · obtain ⟨before, other, after, rfl, passed, stopped⟩ := ih later
        exact ⟨item :: before, other, after, rfl, List.forall_mem_cons.mpr ⟨first, passed⟩, stopped⟩
  · rintro ⟨before, item, after, rfl, passed, stopped⟩
    induction before with
    | nil => exact bind_eq_error.mpr (Or.inl stopped)
    | cons first rest ih =>
      obtain ⟨atFirst, atRest⟩ := List.forall_mem_cons.mp passed
      exact bind_eq_error.mpr (Or.inr ⟨(), atFirst, ih atRest⟩)

end CircuitNames
