import CircuitNames.Proofs.FieldReads

namespace CircuitNames

/-- An expression whose names are identifiers and whose numbers and texts can be read. -/
def Expr.Readable (expr : Expr) : Prop := expr.Identified ∧ expr.Formed fun _ => True

def RegReset.Readable (reset : RegReset) : Prop := reset.signal.Readable ∧ reset.init.Readable

theorem Expr.toJsonAll_eq_map (values : List Expr) : Expr.toJsonAll values = values.map Expr.toJson := by
  induction values with
  | nil => rw [toJsonAll, List.map_nil]
  | cons value rest ih => rw [toJsonAll, ih, List.map_cons]

namespace Decode
open Json (Misfit Record Abridged AbridgedItems Fits defaults present asObject asText asString asCount asName
  asList asOptionalList eachItem)
open Interchange (tagged)

theorem optionalCount_reads (width : Option Number) :
    Reads optionalCount none width (∀ count ∈ width, count.Counts fun _ => True)
      (Interchange.width width) := by
  rw [optionalCount_eq_orAbsent]
  exact orAbsent_reads fun count _ => asCount_reads count

theorem names_read (found : List String) :
    Reads names (some (.array [])) found (∀ name ∈ found, isIdentifier name = true)
      (some (Interchange.strings found)) :=
  asOptionalList_reads fun name _ => asName_reads name

theorem groundType_reads (type : GroundType) :
    Reads groundType none type (type.Counted fun _ => True) (some type.toJson) := by
  cases type with
  | uint width | sint width | analog width =>
    exact reads_tagged ["width"] [] rfl (by decide) (by decide) rfl (fun _ _ => groundType_eq_ok)
      (fun _ keyed => (optionalCount_reads width).last keyed) .rfl
  | clock | reset | asyncReset => exact reads_bare (by decide) rfl (fun _ _ => groundType_eq_ok) trivial

theorem exprs_read {values : List Expr}
    (each : ∀ value ∈ values, Reads expr none value value.Readable (some value.toJson)) :
    Reads exprs none values (∀ value ∈ values, value.Readable) (some (.array (Expr.toJsonAll values))) := by
  rw [exprs_eq_asList, Expr.toJsonAll_eq_map]
  exact asList_reads each

mutual

/-- An expression is read from exactly the values that stand for a readable one written out in full, by
structural recursion: each constructor's fields are read by what reads their values. -/
theorem expr_reads : ∀ value : Expr, Reads expr none value value.Readable (some value.toJson)
  | .ref name => by
    have whole : (Expr.ref name).Readable ↔ isIdentifier name = true := by
      simp [Expr.Readable, Expr.Identified, Expr.names, Expr.Formed]
    rw [Expr.toJson]
    exact reads_tagged ["name"] [] rfl (by decide) (by decide) rfl (fun _ _ => expr_eq_ok)
      (fun _ keyed => (asName_reads name).last keyed) whole
  | .subfield base name => by
    have whole : (Expr.subfield base name).Readable ↔ base.Readable ∧ isIdentifier name = true := by
      simp only [Expr.Readable, Expr.Identified, Expr.names, Expr.Formed, List.forall_mem_append,
        List.forall_mem_singleton]
      exact and_right_comm
    rw [Expr.toJson]
    exact reads_tagged ["expr", "name"] [] rfl (by decide) (by decide) rfl (fun _ _ => expr_eq_ok)
      (fun _ keyed => (expr_reads base).field keyed <| (asName_reads name).last keyed) whole
  | .uintLit value width => by
    have whole : (Expr.uintLit value width).Readable ↔
        isInteger value = true ∧ ∀ count ∈ width, count.Counts fun _ => True :=
      and_iff_right (List.forall_mem_nil _)
    rw [Expr.toJson]
    exact reads_tagged ["value", "width"] [] rfl (by decide) (by decide) rfl (fun _ _ => expr_eq_ok)
      (fun _ keyed => (literalValue_reads value).field keyed <| (optionalCount_reads width).last keyed) whole
  | .sintLit value width => by
    have whole : (Expr.sintLit value width).Readable ↔
        isInteger value = true ∧ ∀ count ∈ width, count.Counts fun _ => True :=
      and_iff_right (List.forall_mem_nil _)
    rw [Expr.toJson]
    exact reads_tagged ["value", "width"] [] rfl (by decide) (by decide) rfl (fun _ _ => expr_eq_ok)
      (fun _ keyed => (literalValue_reads value).field keyed <| (optionalCount_reads width).last keyed) whole
  | .prim op args consts => by
    have whole : (Expr.prim op args consts).Readable ↔
        op ≠ "" ∧ (∀ arg ∈ args, arg.Readable) ∧ ∀ count ∈ consts, count.Counts fun _ => True := by
      have listed : _ ↔ ∀ arg ∈ args, arg.Readable := Expr.legibleAll_iff
      rw [← listed]
      simp only [Expr.Readable, Expr.Identified, Expr.names, Expr.Formed]
      tauto
    have constants := asOptionalList_reads fun count (_ : count ∈ consts) => asCount_reads count
    rw [Expr.toJson]
    exact reads_tagged ["op", "args", "consts"] [("consts", .array [])] rfl (by decide) (by decide) rfl
      (fun _ _ => expr_eq_ok) (fun _ keyed => (asText_reads op).field keyed <|
        (exprs_read (each_expr_reads args)).field keyed <| constants.last keyed) whole
  | .mux cond whenTrue whenFalse => by
    have whole : (Expr.mux cond whenTrue whenFalse).Readable ↔
        cond.Readable ∧ whenTrue.Readable ∧ whenFalse.Readable := by
      simp only [Expr.Readable, Expr.Identified, Expr.names, Expr.Formed, List.forall_mem_append]
      tauto
    rw [Expr.toJson]
    exact reads_tagged ["cond", "tval", "fval"] [] rfl (by decide) (by decide) rfl (fun _ _ => expr_eq_ok)
      (fun _ keyed => (expr_reads cond).field keyed <| (expr_reads whenTrue).field keyed <|
        (expr_reads whenFalse).last keyed) whole
  | .validIf cond value => by
    have whole : (Expr.validIf cond value).Readable ↔ cond.Readable ∧ value.Readable := by
      simp only [Expr.Readable, Expr.Identified, Expr.names, Expr.Formed, List.forall_mem_append]
      exact and_and_and_comm
    rw [Expr.toJson]
    exact reads_tagged ["cond", "value"] [] rfl (by decide) (by decide) rfl (fun _ _ => expr_eq_ok)
      (fun _ keyed => (expr_reads cond).field keyed <| (expr_reads value).last keyed) whole

theorem each_expr_reads :
    ∀ values : List Expr, ∀ value ∈ values, Reads expr none value value.Readable (some value.toJson)
  | [] => List.forall_mem_nil _
  | value :: rest => List.forall_mem_cons.mpr ⟨expr_reads value, each_expr_reads rest⟩

end

end Decode

end CircuitNames
