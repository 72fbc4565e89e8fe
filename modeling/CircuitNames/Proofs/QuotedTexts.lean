import CircuitNames.Json.Reader
import CircuitNames.Text.Quoted
import Mathlib.Data.List.Basic

namespace CircuitNames.Json.Reader

variable {c : Char} {rest : List Char}

/-- Puts a code before those that are read after it. -/
def before (code : Nat) (read : List Nat × List Char) : List Nat × List Char := (code :: read.1, read.2)

theorem codes_letter {letter : Char} (stands : escaped? letter = some c) (notUnit : letter ≠ 'u') :
    codes ('\\' :: letter :: rest) = (codes rest).map (before c.toNat) := by
  rw [codes]
  · cases read : codes rest <;> simp [stands, before]
  · rintro a b d e more same -
    exact notUnit same

theorem codes_plain (printable : ¬ c.toNat < 32) (notQuote : c ≠ '"') (notSlash : c ≠ '\\') :
    codes (c :: rest) = (codes rest).map (before c.toNat) := by
  rw [codes]
  · cases read : codes rest <;> simp [printable, notSlash, before]
  · exact notQuote
  · rintro a b d e more same -
    exact notSlash same
  · rintro letter more same -
    exact notSlash same

/-- The code that an escape of four digits denotes. -/
def unit? : List Char → Option Nat
  | ['\\', 'u', a, b, c, d] => do
    return 4096 * (← hexValue? a) + 256 * (← hexValue? b) + 16 * (← hexValue? c) + (← hexValue? d)
  | _ => none

theorem codes_unit {escape : List Char} {unit : Nat} (denotes : unit? escape = some unit) :
    codes (escape ++ rest) = (codes rest).map (before unit) := by
  unfold unit? at denotes
  split at denotes
  · rename_i a b d e
    obtain ⟨i, first, j, second, k, third, l, fourth, rfl⟩ := by
      simpa only [Option.bind_eq_bind, Option.bind_eq_some_iff, Option.pure_def, Option.some.injEq]
        using denotes
    simp only [List.cons_append, List.nil_append, codes, first, second, third, fourth]
    cases codes rest <;> rfl
  · cases denotes

theorem unit?_hexEscape (control : c.toNat < 32) : unit? (Quoted.hexEscape c) = some c.toNat := by
  have each : ∀ code < 32, unit? (Quoted.hexEscape (Char.ofNat code)) = some code := by decide
  simpa only [Char.ofNat_toNat] using each c.toNat control

/-- The characters that are escaped by a letter, each with its own. -/
theorem escape_letter : ∀ c ∈ ['"', '\\', '\n', '\r', '\t', '\x08', '\x0c'],
    ∃ letter, Quoted.escape c = ['\\', letter] ∧ escaped? letter = some c ∧ letter ≠ 'u' := by
  simp only [List.forall_mem_cons]
  exact ⟨⟨'"', rfl, rfl, by decide⟩, ⟨'\\', rfl, rfl, by decide⟩, ⟨'n', rfl, rfl, by decide⟩,
    ⟨'r', rfl, rfl, by decide⟩,
    ⟨'t', rfl, rfl, by decide⟩, ⟨'b', rfl, rfl, by decide⟩, ⟨'f', rfl, rfl, by decide⟩, List.forall_mem_nil _⟩

/-- The escape of a character is read as its code. -/
theorem codes_escape (c : Char) (rest : List Char) :
    codes (Quoted.escape c ++ rest) = (codes rest).map (before c.toNat) := by
  by_cases short : c ∈ ['"', '\\', '\n', '\r', '\t', '\x08', '\x0c']
  · obtain ⟨letter, text, stands, notUnit⟩ := escape_letter c short
    rw [text]
    exact codes_letter stands notUnit
  · simp only [List.mem_cons, List.not_mem_nil, or_false, not_or] at short
    obtain ⟨notQuote, notSlash, others⟩ := short
    by_cases control : c.toNat < 32
    · have text : Quoted.escape c = Quoted.hexEscape c := by
        simp [Quoted.escape, notQuote, notSlash, others, control]
      rw [text]
      exact codes_unit (unit?_hexEscape control)
    · have text : Quoted.escape c = [c] := by simp [Quoted.escape, notQuote, notSlash, others, control]
      rw [text]
      exact codes_plain control notQuote notSlash

/-- Each character is escaped so that its code comes back. -/
theorem codes_escapes (s : List Char) (rest : List Char) :
    codes (s.flatMap Quoted.escape ++ '"' :: rest) = some (s.map Char.toNat, rest) := by
  induction s with
  | nil => rw [List.flatMap_nil, List.nil_append, codes, List.map_nil]
  | cons c more ih =>
    rw [List.flatMap_cons, List.append_assoc, codes_escape, ih, Option.map_some, before, List.map_cons]

/-- No character is half of a pair. -/
theorem toNat_single (c : Char) : ¬ (0xD800 ≤ c.toNat ∧ c.toNat < 0xE000) := by
  have valid : c.toNat < 0xD800 ∨ (0xDFFF < c.toNat ∧ c.toNat < 0x110000) := c.valid
  omega

/-- No code of a character is half of a pair, so none is joined with the next. -/
theorem joined_codes (s : List Char) : joined (s.map Char.toNat) = s := by
  induction s with
  | nil => rfl
  | cons c more ih =>
    have own : (if 0xD800 ≤ c.toNat ∧ c.toNat < 0xE000 then '\uFFFD' else Char.ofNat c.toNat) = c := by
      rw [if_neg (toNat_single c), Char.ofNat_toNat]
    cases more with
    | nil => rw [List.map_cons, List.map_nil, joined, own]
    | cons d more =>
      have single := toNat_single c
      rw [List.map_cons] at ih
      rw [List.map_cons, List.map_cons, joined, if_neg (by omega), own, ih]

/-- What is quoted is read as it was, up to the closing quote. -/
theorem string_quoted (s : String) (rest : List Char) :
    string (s.toList.flatMap Quoted.escape ++ '"' :: rest) = some (s, rest) := by
  simp only [string, codes_escapes, Option.map_some, joined_codes, String.ofList_toList]

end CircuitNames.Json.Reader
