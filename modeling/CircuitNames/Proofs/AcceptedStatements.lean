import CircuitNames.Proofs.AcceptedExpressions

namespace CircuitNames

namespace Stmt

/-- A statement whose names, at any depth, are identifiers and whose numbers and texts can be read. -/
def Readable (stmt : Stmt) : Prop := ∀ part ∈ stmt.walk, part.Legible fun _ => True

theorem toJsonAll_eq_map (values : List Stmt) : toJsonAll values = values.map toJson := by
  induction values with
  | nil => rw [toJsonAll, List.map_nil]
  | cons value rest ih => rw [toJsonAll, ih, List.map_cons]

theorem readableAll_iff {values : List Stmt} :
    (∀ part ∈ walkAll values, part.Legible fun _ => True) ↔ ∀ value ∈ values, value.Readable := by
  induction values with
  | nil => simp [walkAll]
  | cons value rest ih => rw [List.forall_mem_cons, ← ih, walkAll, List.forall_mem_append, Readable]

/-- A statement that holds no others. -/
theorem readable_leaf {stmt : Stmt} (leaf : stmt.walk = [stmt]) : stmt.Readable ↔
    (∀ name ∈ (stmt.declaration?.map Declaration.names).getD [], isIdentifier name = true) ∧
      (stmt.Counted fun _ => True) ∧ ∀ expr ∈ stmt.ownExprs, expr.Readable := by
  rw [Readable, leaf, List.forall_mem_singleton]
  exact legible_iff

end Stmt

namespace Decode
open Json (Misfit Record Abridged Fits defaults present asObject asText asString asCount asName asList
  asOptionalList eachItem fits_string_iff)
open Interchange (tagged)

theorem readUnderWrite_reads (rule : ReadUnderWrite) :
    Reads readUnderWrite (some (.string "undefined")) rule True (some (.string rule.name)) := by
  intro label found _
  rw [true_and]
  cases found with
  | none => cases rule <;> simp [readUnderWrite, Fits, ReadUnderWrite.name]
  | some found =>
    change _ ↔ Fits none (some (.string rule.name)) (some found)
    rw [fits_string_iff]
    constructor
    · intro read
      unfold readUnderWrite at read
      split at read
      · rename_i absent
        cases absent
      · exact Except.ok.inj read ▸ ‹_›
      · exact Except.ok.inj read ▸ ‹_›
      · exact Except.ok.inj read ▸ ‹_›
      · cases read
    · rintro ⟨⟩
      cases rule <;> rfl

theorem regReset_reads (reset : RegReset) : Reads regReset none reset reset.Readable (some reset.toJson) :=
  reads_object ["signal", "init"] [] rfl (by decide) rfl (fun _ _ => regReset_eq_ok)
    (fun _ keyed => (expr_reads reset.signal).field keyed <| (expr_reads reset.init).last keyed) .rfl

theorem stmts_read {values : List Stmt}
    (each : ∀ value ∈ values, Reads stmt none value value.Readable (some value.toJson)) :
    Reads stmts none values (∀ value ∈ values, value.Readable) (some (.array (Stmt.toJsonAll values))) := by
  rw [stmts_eq_asList, Stmt.toJsonAll_eq_map]
  exact asList_reads each

theorem optionalStmts_read {values : List Stmt}
    (each : ∀ value ∈ values, Reads stmt none value value.Readable (some value.toJson)) :
    Reads optionalStmts (some (.array [])) values (∀ value ∈ values, value.Readable)
      (some (.array (Stmt.toJsonAll values))) := by
  rw [optionalStmts_eq_asOptionalList, Stmt.toJsonAll_eq_map]
  exact asOptionalList_reads each

theorem mem_reads (decl : MemDecl) :
    Reads stmt none (.mem decl) (Stmt.mem decl).Readable (some (Stmt.mem decl).toJson) := by
  have whole : (Stmt.mem decl).Readable ↔
      isIdentifier decl.name = true ∧ (decl.dataType.Counted fun _ => True) ∧
      (decl.depth.Counts fun _ => True) ∧ (decl.readLatency.Counts fun _ => True) ∧
      (decl.writeLatency.Counts fun _ => True) ∧ (∀ name ∈ decl.readers, isIdentifier name = true) ∧
      (∀ name ∈ decl.writers, isIdentifier name = true) ∧
        (∀ name ∈ decl.readwriters, isIdentifier name = true) ∧ True := by
    rw [Stmt.readable_leaf rfl]
    simp only [Stmt.declaration?, Option.map_some, Option.getD_some, Declaration.names, MemDecl.portNames,
      List.forall_mem_cons, List.forall_mem_append, Stmt.Counted, Stmt.ownExprs]
    tauto
  rw [Stmt.toJson]
  exact reads_tagged
    ["name", "dataType", "depth", "readLatency", "writeLatency", "readers", "writers", "readwriters",
      "readUnderWrite"]
    [("readers", .array []), ("writers", .array []), ("readwriters", .array []),
      ("readUnderWrite", .string "undefined")]
    rfl (by decide) (by decide) rfl (fun _ _ => stmt_eq_ok)
    (fun _ keyed => (asName_reads decl.name).field keyed <| (groundType_reads decl.dataType).field keyed <|
      (asCount_reads decl.depth).field keyed <| (asCount_reads decl.readLatency).field keyed <|
      (asCount_reads decl.writeLatency).field keyed <| (names_read decl.readers).field keyed <|
      (names_read decl.writers).field keyed <| (names_read decl.readwriters).field keyed <|
      (readUnderWrite_reads decl.readUnderWrite).last keyed) whole

mutual

/-- A statement is read from exactly the values that stand for a readable one written out in full; the bodies
of `when` and `match` are read by recursion. -/
theorem stmt_reads : ∀ value : Stmt, Reads stmt none value value.Readable (some value.toJson)
  | .wire name type => by
    have whole : (Stmt.wire name type).Readable ↔ isIdentifier name = true ∧ type.Counted fun _ => True := by
      rw [Stmt.readable_leaf rfl]
      simp [Stmt.declaration?, Declaration.names, Stmt.Counted, Stmt.ownExprs]
    rw [Stmt.toJson]
    exact reads_tagged ["name", "type"] [] rfl (by decide) (by decide) rfl (fun _ _ => stmt_eq_ok)
      (fun _ keyed => (asName_reads name).field keyed <| (groundType_reads type).last keyed) whole
  | .reg name type clock reset => by
    have whole : (Stmt.reg name type clock reset).Readable ↔ isIdentifier name = true ∧
        (type.Counted fun _ => True) ∧ clock.Readable ∧ ∀ value ∈ reset, value.Readable := by
      rw [Stmt.readable_leaf rfl]
      cases reset <;>
        simp [Stmt.declaration?, Declaration.names, Stmt.Counted, Stmt.ownExprs, RegReset.Readable]
    rw [Stmt.toJson]
    exact reads_tagged ["name", "type", "clock", "reset"] [] rfl (by decide) (by decide) rfl
      (fun _ _ => stmt_eq_ok)
        (fun _ keyed => (asName_reads name).field keyed <| (groundType_reads type).field keyed <|
        (expr_reads clock).field keyed <| (orAbsent_reads fun value _ => regReset_reads value).last keyed)
          whole
  | .node name value => by
    have whole : (Stmt.node name value).Readable ↔ isIdentifier name = true ∧ value.Readable := by
      rw [Stmt.readable_leaf rfl]
      simp [Stmt.declaration?, Declaration.names, Stmt.Counted, Stmt.ownExprs]
    rw [Stmt.toJson]
    exact reads_tagged ["name", "value"] [] rfl (by decide) (by decide) rfl (fun _ _ => stmt_eq_ok)
      (fun _ keyed => (asName_reads name).field keyed <| (expr_reads value).last keyed) whole
  | .inst name module => by
    have whole : (Stmt.inst name module).Readable ↔
        isIdentifier name = true ∧ isIdentifier module = true := by
      rw [Stmt.readable_leaf rfl]
      simp [Stmt.declaration?, Declaration.names, Stmt.Counted, Stmt.ownExprs]
    rw [Stmt.toJson]
    exact reads_tagged ["name", "module"] [] rfl (by decide) (by decide) rfl (fun _ _ => stmt_eq_ok)
      (fun _ keyed => (asName_reads name).field keyed <| (asName_reads module).last keyed) whole
  | .mem decl => mem_reads decl
  | .connect loc value => by
    have whole : (Stmt.connect loc value).Readable ↔ loc.Readable ∧ value.Readable := by
      rw [Stmt.readable_leaf rfl]
      simp [Stmt.declaration?, Stmt.Counted, Stmt.ownExprs]
    rw [Stmt.toJson]
    exact reads_tagged ["loc", "expr"] [] rfl (by decide) (by decide) rfl (fun _ _ => stmt_eq_ok)
      (fun _ keyed => (expr_reads loc).field keyed <| (expr_reads value).last keyed) whole
  | .invalidate target => by
    have whole : (Stmt.invalidate target).Readable ↔ target.Readable := by
      rw [Stmt.readable_leaf rfl]
      simp [Stmt.declaration?, Stmt.Counted, Stmt.ownExprs]
    rw [Stmt.toJson]
    exact reads_tagged ["expr"] [] rfl (by decide) (by decide) rfl (fun _ _ => stmt_eq_ok)
      (fun _ keyed => (expr_reads target).last keyed) whole
  | .when cond body otherwise => by
    have whole : (Stmt.when cond body otherwise).Readable ↔
        cond.Readable ∧ (∀ part ∈ body, part.Readable) ∧ ∀ part ∈ otherwise, part.Readable := by
      rw [Stmt.Readable, Stmt.walk, List.forall_mem_cons, List.forall_mem_append, Stmt.readableAll_iff,
        Stmt.readableAll_iff, Stmt.legible_iff]
      simp [Stmt.declaration?, Stmt.Counted, Stmt.ownExprs, Expr.Readable]
    rw [Stmt.toJson]
    exact reads_tagged ["cond", "then", "else"] [("else", .array [])] rfl (by decide) (by decide) rfl
      (fun _ _ => stmt_eq_ok) (fun _ keyed => (expr_reads cond).field keyed <|
        (stmts_read (each_stmt_reads body)).field keyed <|
          (optionalStmts_read (each_stmt_reads otherwise)).last keyed) whole
  | .block body => by
    have whole : (Stmt.block body).Readable ↔ ∀ part ∈ body, part.Readable := by
      rw [Stmt.Readable, Stmt.walk, List.forall_mem_cons, Stmt.readableAll_iff, Stmt.legible_iff]
      simp [Stmt.declaration?, Stmt.Counted, Stmt.ownExprs]
    rw [Stmt.toJson]
    exact reads_tagged ["stmts"] [] rfl (by decide) (by decide) rfl (fun _ _ => stmt_eq_ok)
      (fun _ keyed => (stmts_read (each_stmt_reads body)).last keyed) whole
  | .stop clock en exitCode => by
    have whole : (Stmt.stop clock en exitCode).Readable ↔
        clock.Readable ∧ en.Readable ∧ exitCode.Counts fun _ => True := by
      rw [Stmt.readable_leaf rfl]
      simp [Stmt.declaration?, Stmt.Counted, Stmt.ownExprs, and_comm, and_assoc]
    rw [Stmt.toJson]
    exact reads_tagged ["clock", "en", "exitCode"] [] rfl (by decide) (by decide) rfl (fun _ _ => stmt_eq_ok)
      (fun _ keyed => (expr_reads clock).field keyed <| (expr_reads en).field keyed <|
        (asCount_reads exitCode).last keyed) whole
  | .print clock en format args => by
    have whole : (Stmt.print clock en format args).Readable ↔
        clock.Readable ∧ en.Readable ∧ True ∧ ∀ arg ∈ args, arg.Readable := by
      rw [Stmt.readable_leaf rfl]
      simp [Stmt.declaration?, Stmt.Counted, Stmt.ownExprs]
    rw [Stmt.toJson]
    exact reads_tagged ["clock", "en", "format", "args"] [("args", .array [])] rfl (by decide) (by decide) rfl
      (fun _ _ => stmt_eq_ok) (fun _ keyed => (expr_reads clock).field keyed <| (expr_reads en).field keyed <|
        (asString_reads format).field keyed <| (asOptionalList_reads fun arg _ => expr_reads arg).last keyed)
          whole
  | .skip => by
    have sounds : Stmt.skip.Readable := by
      rw [Stmt.readable_leaf rfl]
      simp [Stmt.declaration?, Stmt.Counted, Stmt.ownExprs]
    rw [Stmt.toJson]
    exact reads_bare (by decide) rfl (fun _ _ => stmt_eq_ok) sounds

theorem each_stmt_reads : ∀ values : List Stmt, ∀ value ∈ values,
    Reads stmt none value value.Readable (some value.toJson)
  | [] => List.forall_mem_nil _
  | value :: rest => List.forall_mem_cons.mpr ⟨stmt_reads value, each_stmt_reads rest⟩

end

end Decode

end CircuitNames
