import CircuitNames.Proofs.PassRun
import CircuitNames.Proofs.ReadLedgers

namespace CircuitNames

namespace Ledger

/-- What can be done to ledgers that are held in places. -/
inductive Operation where
  | create
  | register (place : Nat) (source replacement : Target)
  | compose (place other : Nat)
  | load (value : Json)

namespace Operation

/-- The ledgers after an operation. New ledgers come last, and nothing is done to a place without a ledger. -/
def run (store : List Ledger) : Operation → Except Fault (List Ledger)
  | create => return store ++ [.empty]
  | register place source replacement =>
    match store[place]? with
    | some ledger => return store.set place (ledger.register source replacement)
    | none => return store
  | compose place other =>
    match store[place]?, store[other]? with
    | some ledger, some next => return store.set place (← ledger.compose next)
    | _, _ => return store
  | load value => return store ++ [← ofJson value]

/-- An operation that fails changes nothing. -/
def after (store : List Ledger) (op : Operation) : List Ledger :=
  match op.run store with
  | .ok next => next
  | .error _ => store

/-- The place whose ledger an operation changes. -/
def place? : Operation → Option Nat
  | register place _ _ | compose place _ => some place
  | create | load _ => none

end Operation

/-- The ledgers that a list of operations leaves. -/
def history (ops : List Operation) : List Ledger := ops.foldl Operation.after []

theorem history_append (ops : List Operation) (op : Operation) :
    history (ops ++ [op]) = op.after (history ops) := by
  rw [history, List.foldl_append]
  rfl

/-- The only entry that changes is the one of the source, which keeps its replacements in their places, or
which comes last if there was none. -/
structure Registers (source replacement : Target) (ledger result : Ledger) : Prop where
  entries : ∃ kept added, result.entries = kept ++ added ∧
    List.Forall₂ (fun entry found => found.source = entry.source ∧ entry.replacements <+: found.replacements ∧
      (entry.key ≠ source.text → found = entry)) ledger.entries kept ∧
    (added = [] ∨ ledger.contains source = false ∧ added = [⟨source, [replacement]⟩])
  recorded : ∃ entry, result.find? source = some entry ∧ replacement.text ∈ entry.replacements.map Target.text

/-- All sources of the first ledger stay in their places, and just the keys that only the second one has come
after them, with their entries. -/
structure Composes (next ledger result : Ledger) : Prop where
  entries : ∃ moved, moved.map Entry.source = ledger.entries.map Entry.source ∧
    result.entries = moved ++ next.entries.filter fun entry => entry.key ∉ ledger.entries.map Entry.key
  keys : ∀ key, key ∈ result.entries.map Entry.key ↔
    key ∈ ledger.entries.map Entry.key ∨ key ∈ next.entries.map Entry.key
  of_empty : ledger = .empty → result = next
  with_empty : next = .empty → result = ledger

variable {ledger next result : Ledger}

theorem contains_iff {target : Target} :
    ledger.contains target = true ↔ target.text ∈ ledger.entries.map Entry.key := by
  simp [contains, find?]

theorem prefix_addReplacement (known : List Target) (target : Target) :
    known <+: addReplacement known target := by
  unfold addReplacement
  split
  · exact List.prefix_rfl
  · exact List.prefix_append _ _

theorem text_mem_addReplacement (known : List Target) (target : Target) :
    target.text ∈ (addReplacement known target).map Target.text := by
  unfold addReplacement
  split
  · rename_i found
    obtain ⟨other, inside, same⟩ := List.any_eq_true.mp found
    exact List.mem_map.mpr ⟨other, inside, beq_iff_eq.mp same⟩
  · simp

theorem registers (ledger : Ledger) (source replacement : Target) :
    Registers source replacement ledger (ledger.register source replacement) where
  entries := by
    unfold register
    split
    · refine ⟨_, [], (List.append_nil _).symm, ?_, Or.inl rfl⟩
      refine List.forall₂_map_right_iff.mpr (List.forall₂_same.mpr fun entry _ => ?_)
      split
      · rename_i same
        exact ⟨rfl, prefix_addReplacement _ _, fun other => absurd same other⟩
      · exact ⟨rfl, List.prefix_rfl, fun _ => rfl⟩
    · rename_i unknown
      refine ⟨_, _, rfl, List.forall₂_same.mpr fun entry _ => ⟨rfl, List.prefix_rfl, fun _ => rfl⟩,
        Or.inr ⟨?_, rfl⟩⟩
      exact Bool.eq_false_iff.mpr unknown
  recorded := by
    have found := ledger.get?_register source replacement source
    rw [if_pos rfl] at found
    obtain ⟨entry, isEntry, replacements⟩ := Option.map_eq_some_iff.mp found
    exact ⟨entry, isEntry, replacements ▸ text_mem_addReplacement _ _⟩

/-- Replacements with texts of their own stay as they are where nothing is looked up. -/
theorem chaseEntry_empty {entry found : Entry} (texts : (entry.replacements.map Target.text).Nodup)
    (run : ledger.chaseEntry .empty entry = .ok found) : found = entry := by
  obtain ⟨chased, each, rfl⟩ := chaseEntry_eq_ok run
  have alone : chased = entry.replacements.map fun replacement => [replacement] := by
    refine eq_map_of_forall₂ (each.imp fun replacement targets chases => ?_)
    rcases chase_eq_ok chases with rfl | ⟨_, inside, -⟩
    · rfl
    · cases inside
  rw [alone, ← List.flatMap_def, List.flatMap_singleton',
    foldl_addReplacement_of_nodup (by simpa using texts), List.nil_append]

theorem Keyed.eq_of_compose_empty (keyed : ledger.Keyed) (composed : ledger.compose .empty = .ok result) :
    result = ledger := by
  obtain ⟨moved, each, rfl⟩ := compose_eq_ok composed
  have same : moved = ledger.entries.map id := eq_map_of_forall₂ <|
    forall₂_imp_of_mem each fun entry inside found run => chaseEntry_empty (keyed.texts entry inside) run
  rw [same, List.map_id]
  exact congrArg Ledger.mk (List.append_nil _)

theorem Keyed.composes (keyed : ledger.Keyed) (composed : ledger.compose next = .ok result) :
    Composes next ledger result := by
  obtain ⟨moved, each, same⟩ := compose_eq_ok composed
  have sources : moved.map Entry.source = ledger.entries.map Entry.source :=
    map_eq_of_forall₂ (each.imp fun _ _ => chaseEntry_source)
  have keys : moved.map Entry.key = ledger.entries.map Entry.key := by
    have texts := congrArg (List.map Target.text) sources
    rw [List.map_map, List.map_map] at texts
    exact texts
  -- What a ledger has is a matter of the text alone.
  have added : (next.entries.filter fun entry => !ledger.contains entry.source) =
      next.entries.filter fun entry => entry.key ∉ ledger.entries.map Entry.key := by
    refine List.filter_congr fun entry _ => ?_
    rw [Bool.eq_iff_iff, Bool.not_eq_true', ← Bool.not_eq_true, contains_iff, decide_eq_true_iff]
    rfl
  constructor
  · exact ⟨moved, sources, by rw [same, added]⟩
  · intro key
    rw [same, added, List.map_append, List.mem_append, keys]
    by_cases old : key ∈ ledger.entries.map Entry.key
    · exact iff_of_true (Or.inl old) (Or.inl old)
    · refine or_congr_right ⟨fun inside => ?_, fun inside => ?_⟩
      · obtain ⟨entry, isEntry, rfl⟩ := List.mem_map.mp inside
        exact List.mem_map_of_mem (List.mem_of_mem_filter isEntry)
      · obtain ⟨entry, isEntry, rfl⟩ := List.mem_map.mp inside
        exact List.mem_map_of_mem (List.mem_filter.mpr ⟨isEntry, decide_eq_true old⟩)
  · rintro rfl
    exact Except.ok.inj (composed.symm.trans next.compose_empty)
  · rintro rfl
    exact keyed.eq_of_compose_empty composed

namespace Operation

variable {store : List Ledger}

/-- What an operation on a place can do: nothing, or a new ledger comes last, or the ledger in the place is
replaced by what registering or composing makes of it. -/
inductive Effect (store : List Ledger) : Option Nat → List Ledger → Prop
  | nothing {place? : Option Nat} : Effect store place? store
  | added {ledger : Ledger} (made : ledger = .empty ∨ ∃ value, ofJson value = .ok ledger) :
      Effect store none (store ++ [ledger])
  | registered {place : Nat} {ledger : Ledger} (here : store[place]? = some ledger)
      (source replacement : Target) :
      Effect store (some place) (store.set place (ledger.register source replacement))
  | composed {place other : Nat} {ledger next result : Ledger} (here : store[place]? = some ledger)
      (there : store[other]? = some next) (composed : ledger.compose next = .ok result) :
      Effect store (some place) (store.set place result)

/-- An operation changes the ledger it is on, or adds one, and leaves all others as they were. -/
theorem run_effect {op : Operation} {outcome : List Ledger} (ran : op.run store = .ok outcome) :
    Effect store op.place? outcome := by
  cases op with
  | create => exact Except.ok.inj ran ▸ .added (Or.inl rfl)
  | register place source replacement =>
    simp only [run] at ran
    split at ran
    · rename_i ledger here
      exact Except.ok.inj ran ▸ .registered here source replacement
    · exact Except.ok.inj ran ▸ .nothing
  | compose place other =>
    simp only [run] at ran
    split at ran
    · rename_i ledger next here there
      obtain ⟨result, composed, same⟩ := bind_eq_ok.mp ran
      exact Except.ok.inj same ▸ .composed here there composed
    · exact Except.ok.inj ran ▸ .nothing
  | load value =>
    obtain ⟨ledger, read, same⟩ := bind_eq_ok.mp ran
    exact Except.ok.inj same ▸ .added (Or.inr ⟨value, read⟩)

theorem after_effect (op : Operation) : Effect store op.place? (op.after store) := by
  unfold after
  split
  · rename_i outcome ran
    exact run_effect ran
  · exact .nothing

/-- Each ledger stays indexed by the texts of its sources, also where a ledger is composed with itself. -/
theorem Effect.keyed {place? : Option Nat} {outcome : List Ledger} (effect : Effect store place? outcome)
    (keyed : ∀ ledger ∈ store, ledger.Keyed) : ∀ ledger ∈ outcome, ledger.Keyed := by
  have replaced {place : Nat} {result : Ledger} (kept : result.Keyed) :
      ∀ ledger ∈ store.set place result, ledger.Keyed := by
    intro ledger inside
    rcases List.mem_or_eq_of_mem_set inside with old | rfl
    · exact keyed ledger old
    · exact kept
  cases effect with
  | nothing => exact keyed
  | added made =>
    refine List.forall_mem_append.mpr ⟨keyed, List.forall_mem_singleton.mpr ?_⟩
    rcases made with rfl | ⟨value, read⟩
    · exact keyed_empty
    · exact (ofJson_kept read).1
  | registered here source replacement =>
    exact replaced ((keyed _ (List.mem_of_getElem? here)).register source replacement)
  | composed here there composed =>
    exact replaced
      ((keyed _ (List.mem_of_getElem? here)).compose (keyed _ (List.mem_of_getElem? there)) composed)

/-- Ledgers in other places stay as they are. -/
theorem Effect.frame {place? : Option Nat} {outcome : List Ledger}
    (effect : Effect store place? outcome) {index : Nat} {ledger : Ledger}
    (here : store[index]? = some ledger) (apart : place? ≠ some index) : outcome[index]? = some ledger := by
  cases effect with
  | nothing => exact here
  | added made => rw [List.getElem?_append_left (List.getElem?_eq_some_iff.mp here).1, here]
  | registered | composed => rw [List.getElem?_set_ne fun same => apart (congrArg some same), here]

theorem after_register {place : Nat} {ledger : Ledger} (here : store[place]? = some ledger)
    (source replacement : Target) :
    ((register place source replacement).after store)[place]? =
      some (ledger.register source replacement) := by
  simp only [after, run, here]
  exact List.getElem?_set_self (List.getElem?_eq_some_iff.mp here).1

theorem after_compose {place other : Nat} {ledger next result : Ledger} (here : store[place]? = some ledger)
    (there : store[other]? = some next) (composed : ledger.compose next = .ok result) :
    ((compose place other).after store)[place]? = some result := by
  simp only [after, run, here, there, composed]
  exact List.getElem?_set_self (List.getElem?_eq_some_iff.mp here).1

end Operation

theorem history_keyed (ops : List Operation) : ∀ ledger ∈ history ops, ledger.Keyed := by
  induction ops using List.reverseRecOn with
  | nil => exact List.forall_mem_nil _
  | append_singleton ops op ih =>
    rw [history_append]
    exact op.after_effect.keyed ih

/-- A pass on a ledger does what it does on an empty one, and then its renames are composed into the
ledger. -/
theorem Keyed.run_eq {ledger : Ledger} (keyed : ledger.Keyed) {pass : Pass} {circuit : Circuit}
    {skips : SkipSet}
    (composes : Pass.leavesAlone skips circuit = true → ∃ result, ledger.compose .empty = .ok result) :
    pass.run circuit ledger skips = (do
      let (out, own) ← pass.run circuit .empty skips
      return (out, ← ledger.compose own)) := by
  cases skipped : Pass.leavesAlone skips circuit with
  | true =>
    -- The pass leaves its own ledger empty, and that changes nothing where it composes.
    obtain ⟨result, composed⟩ := composes skipped
    rw [Pass.run_leavesAlone skipped, Pass.run_leavesAlone skipped]
    refine (bind_ok rfl (bind_ok composed ?_)).symm
    rw [keyed.eq_of_compose_empty composed]
    rfl
  | false =>
    rw [Pass.run_empty skipped, Pass.run, if_neg (by simp [skipped])]

/-- Through every history of operations, each ledger finds just its entries, each under the text of its
source, and each with replacements, of which no two have the same text. Whatever comes next, an operation on
another place leaves a ledger as it is, registering keeps all but the one entry, and composing, also of a
ledger with itself, keeps all sources in their places and adds those that are new. So a pass does the same on
a ledger as on an empty one that is composed then, if that composes: where the circuit is skipped, the empty
one is composed itself. -/
theorem history_keeps (ops : List Operation) :
    (∀ ledger ∈ history ops, ledger.Keyed ∧
      ∀ target entry, ledger.find? target = some entry ↔
        entry ∈ ledger.entries ∧ entry.source.text = target.text) ∧
    ∀ place ledger, (history ops)[place]? = some ledger →
      (∀ op : Operation, op.place? ≠ some place → (history (ops ++ [op]))[place]? = some ledger) ∧
      (∀ source replacement, ∃ result,
        (history (ops ++ [.register place source replacement]))[place]? = some result ∧
        Registers source replacement ledger result) ∧
      (∀ other next result, (history ops)[other]? = some next → ledger.compose next = .ok result →
        (history (ops ++ [.compose place other]))[place]? = some result ∧ Composes next ledger result) ∧
      ∀ (pass : Pass) circuit skips,
        (Pass.leavesAlone skips circuit = true → ∃ result, ledger.compose .empty = .ok result) →
        pass.run circuit ledger skips = (do
          let (out, own) ← pass.run circuit .empty skips
          return (out, ← ledger.compose own)) := by
  refine ⟨fun ledger inside => ⟨history_keyed ops ledger inside, fun target entry => ?_⟩,
    fun place ledger here => ?_⟩
  · exact (history_keyed ops ledger inside).find?_eq_some_iff
  · have keyed := history_keyed ops ledger (List.mem_of_getElem? here)
    simp only [history_append]
    exact ⟨fun op apart => op.after_effect.frame here apart,
      fun source replacement =>
        ⟨_, Operation.after_register here source replacement, registers ledger source replacement⟩,
      fun other next result there composed =>
        ⟨Operation.after_compose here there composed, keyed.composes composed⟩,
      fun pass circuit skips => keyed.run_eq⟩

namespace Sample

def moduleRenames (entries : List (String × String)) : Ledger :=
  ⟨entries.map fun (old, new) => ⟨.module ⟨"C", old⟩, [.module ⟨"C", new⟩]⟩⟩

/-- A ledger with one rename after another, beside an empty one. -/
def operations : List Operation :=
  [.create, .register 0 (.module ⟨"C", "A"⟩) (.module ⟨"C", "B"⟩), .create,
    .register 0 (.module ⟨"C", "B"⟩) (.module ⟨"C", "D"⟩), .load .null]

def chain : Ledger := moduleRenames [("A", "B"), ("B", "D")]

def shortcut : Ledger := moduleRenames [("A", "D"), ("B", "D")]

end Sample

open Sample in
theorem history_keeps_sample :
    (history (operations ++ [.compose 0 0]))[0]? = some shortcut ∧ Composes chain chain shortcut ∧
    (history (operations ++ [.compose 0 0]))[1]? = some .empty ∧
    (do let (out, own) ← (Pass.ofSpec .lowerCase).run ⟨"C", []⟩ .empty ⟨[.circuit "C"]⟩
        return (out, ← chain.compose own)) = .ok ((⟨"C", []⟩ : Circuit), chain) := by
  have here : (history operations)[0]? = some chain := by decide
  obtain ⟨-, places⟩ := history_keeps operations
  obtain ⟨-, -, composes, passes⟩ := places 0 chain here
  obtain ⟨frame, -⟩ := places 1 .empty (by decide)
  obtain ⟨after, composed⟩ := composes 0 chain shortcut here (by decide)
  exact ⟨after, composed, frame (.compose 0 0) (by decide),
    (passes _ _ _ fun _ => ⟨chain, by decide⟩).symm.trans (Pass.run_leavesAlone (by decide))⟩

end Ledger

end CircuitNames
