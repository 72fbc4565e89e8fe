import CircuitNames.Proofs.Binds

namespace CircuitNames

variable {ε σ α β γ δ : Type}

/-- Three lists of one length whose items are related position by position. -/
inductive Forall₃ (R : α → β → γ → Prop) : List α → List β → List γ → Prop
  | nil : Forall₃ R [] [] []
  | cons {item : α} {one : β} {two : γ} {items : List α} {ones : List β} {twos : List γ}
      (first : R item one two)
      (rest : Forall₃ R items ones twos) : Forall₃ R (item :: items) (one :: ones) (two :: twos)

namespace Forall₃

variable {R : α → β → γ → Prop} {items more : List α} {ones others : List β} {twos further : List γ}

theorem append (first : Forall₃ R items ones twos) (later : Forall₃ R more others further) :
    Forall₃ R (items ++ more) (ones ++ others) (twos ++ further) := by
  induction first with
  | nil => exact later
  | cons here _ ih => exact .cons here ih

theorem getElem? (related : Forall₃ R items ones twos) {index : Nat} {item : α}
    (found : items[index]? = some item) :
    ∃ one two, ones[index]? = some one ∧ twos[index]? = some two ∧ R item one two := by
  induction related generalizing index with
  | nil => simp at found
  | @cons item one two _ _ _ here _ ih =>
    cases index with
    | zero => exact ⟨one, two, rfl, rfl, Option.some.inj found ▸ here⟩
    | succ index => exact ih found

end Forall₃

/-- Two computations that end alike: both fail, with the same fault, or both succeed, with results in a
relation. -/
inductive Alongside (R : α → β → Prop) : Except ε α → Except ε β → Prop
  | ok {a : α} {b : β} (related : R a b) : Alongside R (.ok a) (.ok b)
  | error (fault : ε) : Alongside R (.error fault) (.error fault)

namespace Alongside

variable {R : α → β → Prop} {S : γ → δ → Prop} {x : Except ε α} {y : Except ε β}

theorem refl {R : α → α → Prop} (reflexive : ∀ a, R a a) (x : Except ε α) : Alongside R x x := by
  cases x with
  | error fault => exact .error fault
  | ok a => exact .ok (reflexive a)

/-- What is known of the results of either computation can be used to relate them. -/
theorem imp_ok {Q : α → β → Prop} (along : Alongside R x y)
    (next : ∀ a b, x = .ok a → y = .ok b → R a b → Q a b) : Alongside Q x y := by
  cases along with
  | ok related => exact .ok (next _ _ rfl rfl related)
  | error fault => exact .error fault

theorem succeeds_iff (along : Alongside R x y) : (∃ a, x = .ok a) ↔ ∃ b, y = .ok b := by
  cases along <;> simp

/-- Two sequences of steps run side by side when their first steps do, and their rests do from any related
results. -/
theorem bind {f : α → Except ε γ} {g : β → Except ε δ} (along : Alongside R x y)
    (next : ∀ a b, R a b → Alongside S (f a) (g b)) : Alongside S (x >>= f) (y >>= g) := by
  cases along with
  | ok related => exact next _ _ related
  | error fault => exact .error fault

/-- What is only made of a result has no say in how the computation ends. -/
theorem then_pure {S : γ → β → Prop} {f : α → γ} (along : Alongside R x y) (next : ∀ a b, R a b → S (f a) b) :
    Alongside S (x >>= fun a => pure (f a)) y := by
  cases along with
  | ok related => exact .ok (next _ _ related)
  | error fault => exact .error fault

/-- The same for steps of a state. -/
theorem bind_run {τ : Type} {R : α × σ → β × τ → Prop} {S : γ × σ → δ × τ → Prop} {x : StateT σ (Except ε) α}
    {y : StateT τ (Except ε) β} {f : α → StateT σ (Except ε) γ}
    {g : β → StateT τ (Except ε) δ} {s : σ} {t : τ} (along : Alongside R (x s) (y t))
    (next : ∀ a s b t, R (a, s) (b, t) → Alongside S (f a s) (g b t)) :
    Alongside S ((x >>= f) s) ((y >>= g) t) :=
  along.bind fun (a, s) (b, t) related => next a s b t related

/-- What only asks leaves the states as they are. -/
theorem lift {τ : Type} {s : σ} {t : τ} (along : Alongside R x y) :
    Alongside (fun a b => (a.2 = s ∧ b.2 = t) ∧ R a.1 b.1) ((liftM x : StateT σ (Except ε) α) s)
      ((liftM y : StateT τ (Except ε) β) t) :=
  along.bind fun _ _ related => .ok ⟨⟨rfl, rfl⟩, related⟩

/-- A walk over a list keeps the states together and relates what becomes of each item. -/
theorem mapM_run {τ : Type} {f : α → StateT σ (Except ε) β} {g : α → StateT τ (Except ε) γ} {I : σ → τ → Prop}
    {R : α → β → γ → Prop} {items : List α} {s : σ} {t : τ} (together : I s t)
    (each : ∀ item ∈ items, ∀ s t, I s t →
      Alongside (fun a b => I a.2 b.2 ∧ R item a.1 b.1) (f item s) (g item t)) :
    Alongside (fun a b => I a.2 b.2 ∧ Forall₃ R items a.1 b.1) (items.mapM f s) (items.mapM g t) := by
  induction items generalizing s t with
  | nil => exact .ok ⟨together, .nil⟩
  | cons item rest ih =>
    obtain ⟨first, later⟩ := List.forall_mem_cons.mp each
    rw [List.mapM_cons, List.mapM_cons]
    refine (first s t together).bind_run fun a s b t ⟨next, here⟩ => ?_
    exact (ih next later).bind_run fun as s bs t ⟨last, there⟩ => .ok ⟨last, .cons here there⟩

/-- Loops over one list run side by side when their turns do, and what they make of the list is related item
by item. -/
theorem mapM {f : α → Except ε β} {g : α → Except ε γ} {R : α → β → γ → Prop} {items : List α}
    (each : ∀ item ∈ items, Alongside (R item) (f item) (g item)) :
    Alongside (Forall₃ R items) (items.mapM f) (items.mapM g) := by
  induction items with
  | nil => exact .ok .nil
  | cons item rest ih =>
    obtain ⟨first, later⟩ := List.forall_mem_cons.mp each
    rw [List.mapM_cons, List.mapM_cons]
    exact first.bind fun a b here => (ih later).bind fun as bs there => .ok (.cons here there)

theorem symm (along : Alongside (fun _ _ => True) x y) : Alongside (fun _ _ => True) y x := by
  cases along with
  | ok => exact .ok trivial
  | error fault => exact .error fault

theorem trans {z : Except ε γ} (first : Alongside (fun _ _ => True) x y)
    (second : Alongside (fun _ _ => True) y z) :
    Alongside (fun _ _ => True) x z := by
  cases first with
  | ok =>
    cases second
    exact .ok trivial
  | error fault =>
    cases second
    exact .error fault

/-- Runs that end alike on each item relate their results on each item. -/
theorem forall₃ {f : α → Except ε β} {g : α → Except ε γ} {R : α → β → γ → Prop}
    {items : List α} {ones : List β} {twos : List γ}
    (each : ∀ item ∈ items, Alongside (R item) (f item) (g item))
    (first : List.Forall₂ (fun item one => f item = .ok one) items ones)
    (second : List.Forall₂ (fun item two => g item = .ok two) items twos) : Forall₃ R items ones twos := by
  induction first generalizing twos with
  | nil =>
    cases second
    exact .nil
  | @cons item one _ _ here _ ih =>
    cases second with
    | cons there later =>
      obtain ⟨atFirst, atRest⟩ := List.forall_mem_cons.mp each
      rw [here, there] at atFirst
      cases atFirst with
      | ok related => exact .cons related (ih atRest later)

end Alongside

end CircuitNames
