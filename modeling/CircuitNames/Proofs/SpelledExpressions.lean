import CircuitNames.Circuit.Text
import CircuitNames.Proofs.DecodedCircuits
import CircuitNames.Proofs.IdentifierNames

namespace CircuitNames

/-- An expression that was read from some value. -/
def Expr.Decoded (expr : Expr) : Prop := ∃ label value, Decode.expr label value = .ok expr

namespace Expr

mutual

/-- The operations in an expression, by name. -/
def ops : Expr → List String
  | ref _ | uintLit .. | sintLit .. => []
  | subfield base _ => ops base
  | prim op args _ => op :: opsAll args
  | mux cond whenTrue whenFalse => ops cond ++ ops whenTrue ++ ops whenFalse
  | validIf cond value => ops cond ++ ops value

def opsAll : List Expr → List String
  | [] => []
  | expr :: rest => ops expr ++ opsAll rest

end

mutual

/-- The widths and constants in an expression. -/
def counts : Expr → List Number
  | ref _ => []
  | subfield base _ => counts base
  | uintLit _ width | sintLit _ width => width.toList
  | prim _ args consts => countsAll args ++ consts
  | mux cond whenTrue whenFalse => counts cond ++ counts whenTrue ++ counts whenFalse
  | validIf cond value => counts cond ++ counts value

def countsAll : List Expr → List Number
  | [] => []
  | expr :: rest => counts expr ++ countsAll rest

end

section
variable (applies : String → Prop) (counted : Number → Prop)

mutual

/-- Names are identifiers, literals are whole numbers, and operations and numbers are as they are asked
for. -/
def Spelled : Expr → Prop
  | ref name => isIdentifier name = true
  | subfield base name => Spelled base ∧ isIdentifier name = true
  | uintLit value width | sintLit value width => Decode.isInteger value = true ∧ ∀ n ∈ width, counted n
  | prim op args consts => applies op ∧ SpelledAll args ∧ ∀ n ∈ consts, counted n
  | mux cond whenTrue whenFalse => Spelled cond ∧ Spelled whenTrue ∧ Spelled whenFalse
  | validIf cond value => Spelled cond ∧ Spelled value

def SpelledAll : List Expr → Prop
  | [] => True
  | expr :: rest => Spelled expr ∧ SpelledAll rest

end

end

variable {applies : String → Prop} {counted : Number → Prop} {admits : Number → Prop}

mutual

/-- What is asked of names, operations and numbers is asked of every part of the expression. -/
theorem spelled_of : ∀ {e : Expr}, e.Identified → e.Formed admits → (∀ op ∈ e.ops, op ≠ "" → applies op) →
    (∀ n ∈ e.counts, n.Counts admits → counted n) → e.Spelled applies counted
  | .ref name, identified, _, _, _ => identified name (List.mem_singleton_self name)
  | .subfield base name, identified, formed, operations, numbers => by
    obtain ⟨ofBase, ofName⟩ := List.forall_mem_append.mp identified
    exact ⟨spelled_of ofBase formed operations numbers, ofName name (List.mem_singleton_self name)⟩
  | .uintLit value width, _, formed, _, numbers =>
    ⟨formed.1, fun n held => numbers n (Option.mem_toList.mpr held) (formed.2 n held)⟩
  | .sintLit value width, _, formed, _, numbers =>
    ⟨formed.1, fun n held => numbers n (Option.mem_toList.mpr held) (formed.2 n held)⟩
  | .prim op args consts, identified, formed, operations, numbers => by
    obtain ⟨own, ofArgs⟩ := List.forall_mem_cons.mp operations
    obtain ⟨inArgs, inConsts⟩ := List.forall_mem_append.mp numbers
    exact ⟨own formed.1, spelledAll_of identified formed.2.1 ofArgs inArgs,
      fun n held => inConsts n held (formed.2.2 n held)⟩
  | .mux cond whenTrue whenFalse, identified, formed, operations, numbers => by
    obtain ⟨identified, ofFalse⟩ := List.forall_mem_append.mp identified
    obtain ⟨ofCond, ofTrue⟩ := List.forall_mem_append.mp identified
    obtain ⟨operations, operationsFalse⟩ := List.forall_mem_append.mp operations
    obtain ⟨operationsCond, operationsTrue⟩ := List.forall_mem_append.mp operations
    obtain ⟨numbers, numbersFalse⟩ := List.forall_mem_append.mp numbers
    obtain ⟨numbersCond, numbersTrue⟩ := List.forall_mem_append.mp numbers
    exact ⟨spelled_of ofCond formed.1 operationsCond numbersCond,
      spelled_of ofTrue formed.2.1 operationsTrue numbersTrue,
      spelled_of ofFalse formed.2.2 operationsFalse numbersFalse⟩
  | .validIf cond value, identified, formed, operations, numbers => by
    obtain ⟨ofCond, ofValue⟩ := List.forall_mem_append.mp identified
    obtain ⟨operationsCond, operationsValue⟩ := List.forall_mem_append.mp operations
    obtain ⟨numbersCond, numbersValue⟩ := List.forall_mem_append.mp numbers
    exact ⟨spelled_of ofCond formed.1 operationsCond numbersCond,
      spelled_of ofValue formed.2 operationsValue numbersValue⟩

theorem spelledAll_of : ∀ {es : List Expr}, (∀ name ∈ namesAll es, isIdentifier name = true) →
    FormedAll admits es →
    (∀ op ∈ opsAll es, op ≠ "" → applies op) → (∀ n ∈ countsAll es, n.Counts admits → counted n) →
      SpelledAll applies counted es
  | [], _, _, _, _ => trivial
  | e :: rest, identified, formed, operations, numbers => by
    obtain ⟨own, later⟩ := List.forall_mem_append.mp identified
    obtain ⟨operationsOwn, operationsLater⟩ := List.forall_mem_append.mp operations
    obtain ⟨numbersOwn, numbersLater⟩ := List.forall_mem_append.mp numbers
    exact ⟨spelled_of own formed.1 operationsOwn numbersOwn,
      spelledAll_of later formed.2 operationsLater numbersLater⟩

end

theorem mem_of_isInteger {value : String} (isInteger : Decode.isInteger value = true) :
    ∀ c ∈ value.toList, c = '-' ∨ c.isDigit = true := by
  unfold Decode.isInteger at isInteger
  intro c inside
  split at isInteger
  · rename_i same
    rw [same] at inside
    rcases List.mem_cons.mp inside with rfl | later
    · exact .inl rfl
    · exact .inr (List.all_eq_true.mp (Bool.and_eq_true_iff.mp isInteger).2 c later)
  · exact .inr (List.all_eq_true.mp (Bool.and_eq_true_iff.mp isInteger).2 c inside)

theorem begins_of_isIdentifier {name : String} (identifier : isIdentifier name = true) :
    ∃ c more, name.toList = c :: more ∧ Identifier.isHead c = true := by
  unfold isIdentifier at identifier
  generalize name.toList = chars at identifier
  cases chars with
  | nil => cases identifier
  | cons c more => exact ⟨c, more, rfl, (Bool.and_eq_true_iff.mp identifier).1⟩

/-- The text of an expression begins like a name or like an operation. -/
theorem chars_begin {first : Char → Prop} (heads : ∀ c, Identifier.isHead c = true → first c)
    (operations : ∀ op, applies op → ∃ c more, op.toList = c :: more ∧ first c) :
    ∀ e : Expr, e.Spelled applies counted → ∃ c more, e.chars = c :: more ∧ first c
  | .ref _, identifier => by
    obtain ⟨c, more, text, head⟩ := begins_of_isIdentifier identifier
    exact ⟨c, more, text, heads c head⟩
  | .subfield base name, spelled => by
    obtain ⟨c, more, text, begins⟩ := chars_begin heads operations base spelled.1
    refine ⟨c, more ++ '.' :: name.toList, ?_, begins⟩
    change base.chars ++ '.' :: name.toList = _
    rw [text, List.cons_append]
  | .uintLit .., _ => ⟨'U', _, rfl, heads _ rfl⟩
  | .sintLit .., _ => ⟨'S', _, rfl, heads _ rfl⟩
  | .prim op args consts, spelled => by
    obtain ⟨c, more, text, begins⟩ := operations op spelled.1
    refine ⟨c,
      more ++ '(' :: (CircuitText.commaSeparated (charsAll args ++ consts.map Number.chars) ++ [')']),
      ?_, begins⟩
    change op.toList ++ '(' :: CircuitText.commaSeparated _ ++ [')'] = _
    rw [text, List.append_assoc]
    rfl
  | .mux .., _ => ⟨'m', _, rfl, heads _ rfl⟩
  | .validIf .., _ => ⟨'v', _, rfl, heads _ rfl⟩

end Expr

end CircuitNames
