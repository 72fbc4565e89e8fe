import CircuitNames.Circuit.Decode
import CircuitNames.Proofs.Binds

namespace CircuitNames

namespace Json

/-- What an object has to hold for a part of a circuit to be read from it is stated of its fields; what is
shown of reading elsewhere goes by them. -/
theorem asObject_eq_ok {label : String} {found : Option Json} {record : Record} :
    asObject label found = .ok record ↔ record.label = label ∧ found = some (.object record.fields) := by
  obtain ⟨own, fields⟩ := record
  unfold asObject
  split
  · simp [eq_comm]
  · rename_i other
    simp only [reduceCtorEq, false_iff, not_and]
    exact fun _ same => other fields same

/-- An object of some kind that has no other fields than these. -/
def Record.Tagged (record : Record) (kind : String) (keys : List String) : Prop :=
  record.read asText "kind" = .ok kind ∧ record.allowOnly ("kind" :: keys) = .ok ()

end Json

namespace Decode
open Json (Misfit Record asObject asObject_eq_ok asText asString asCount asName asList asOptionalList
  eachItem)

section Lists
variable {α : Type} {form : String → Option Json → Except Misfit α} {label : String} {items : List α}

theorem exists_of_mem_eachItem {position : Nat} {values : List Json}
    (read : eachItem form label position values = .ok items) :
    ∀ item ∈ items, ∃ label, ∃ value ∈ values, form label (some value) = .ok item := by
  induction values generalizing position items with
  | nil => exact Except.ok.inj read ▸ List.forall_mem_nil _
  | cons value rest ih =>
    obtain ⟨first, atFirst, read⟩ := bind_eq_ok.mp read
    obtain ⟨later, atLater, result⟩ := bind_eq_ok.mp read
    refine Except.ok.inj result ▸
      List.forall_mem_cons.mpr ⟨⟨_, value, List.mem_cons_self, atFirst⟩, fun item inside => ?_⟩
    obtain ⟨own, other, member, read⟩ := ih atLater item inside
    exact ⟨own, other, List.mem_cons_of_mem _ member, read⟩

/-- Each item of a list is read from an item of an array. -/
theorem exists_of_mem_asList {found : Option Json} (read : asList form label found = .ok items) :
    ∀ item ∈ items, ∃ values, found = some (.array values) ∧
      ∃ label, ∃ value ∈ values, form label (some value) = .ok item := by
  unfold asList at read
  split at read
  · exact fun item inside => ⟨_, rfl, exists_of_mem_eachItem read item inside⟩
  · cases read

/-- An item that may be absent. -/
def orAbsent (form : String → Option Json → Except Misfit α) (label : String) :
    Option Json → Except Misfit (Option α)
  | none => .ok none
  | some found => (form label (some found)).map some

theorem orAbsent_some_eq_ok {found : Json} {item : Option α} :
    orAbsent form label (some found) = .ok item ↔ ∃ value, form label (some found) = .ok value ∧
      item = some value := by
  rw [orAbsent]
  cases form label (some found) <;> simp [Except.map, eq_comm]

end Lists

theorem optionalCount_eq_orAbsent : optionalCount = orAbsent asCount := by
  funext label found
  cases found <;> rfl

/-- What an object holds that a ground type is read from. -/
def TypeFields (record : Record) : GroundType → Prop
  | .uint width => record.Tagged "uint" ["width"] ∧ record.read optionalCount "width" = .ok width
  | .sint width => record.Tagged "sint" ["width"] ∧ record.read optionalCount "width" = .ok width
  | .analog width => record.Tagged "analog" ["width"] ∧ record.read optionalCount "width" = .ok width
  | .clock => record.Tagged "clock" []
  | .reset => record.Tagged "reset" []
  | .asyncReset => record.Tagged "async_reset" []

theorem groundType_eq_ok {label : String} {found : Option Json} {type : GroundType} :
    groundType label found = .ok type ↔
    ∃ record, asObject label found = .ok record ∧ TypeFields record type := by
  refine bind_eq_ok.trans (exists_congr fun record => and_congr_right fun _ => ?_)
  constructor
  · intro read
    obtain ⟨kind, atKind, read⟩ := bind_eq_ok.mp read
    split at read
    · obtain ⟨_, known, width, atWidth, result⟩ := by simpa only [bind_eq_ok] using read
      exact Except.ok.inj result ▸ ⟨⟨atKind, known⟩, atWidth⟩
    · obtain ⟨_, known, width, atWidth, result⟩ := by simpa only [bind_eq_ok] using read
      exact Except.ok.inj result ▸ ⟨⟨atKind, known⟩, atWidth⟩
    · obtain ⟨_, known, width, atWidth, result⟩ := by simpa only [bind_eq_ok] using read
      exact Except.ok.inj result ▸ ⟨⟨atKind, known⟩, atWidth⟩
    · obtain ⟨_, known, result⟩ := bind_eq_ok.mp read
      exact Except.ok.inj result ▸ ⟨atKind, known⟩
    · obtain ⟨_, known, result⟩ := bind_eq_ok.mp read
      exact Except.ok.inj result ▸ ⟨atKind, known⟩
    · obtain ⟨_, known, result⟩ := bind_eq_ok.mp read
      exact Except.ok.inj result ▸ ⟨atKind, known⟩
    · cases read
  · intro fields
    cases type with
    | uint width | sint width | analog width =>
      obtain ⟨⟨atKind, known⟩, atWidth⟩ := fields
      exact bind_ok atKind <| bind_ok known <| bind_ok atWidth rfl
    | clock | reset | asyncReset =>
      obtain ⟨atKind, known⟩ := fields
      exact bind_ok atKind <| bind_ok known rfl

theorem exprItems_eq_eachItem (label : String) (position : Nat) (items : List Json) :
    exprItems label position items = eachItem expr label position items := by
  induction items generalizing position with
  | nil => rw [exprItems, eachItem]
  | cons item rest ih =>
    rw [exprItems, eachItem]
    simp only [ih]

/-- The mutual reader of expressions reads lists of them like all other lists. -/
theorem exprs_eq_asList : exprs = asList expr := by
  funext label found
  cases found with
  | none => simp [exprs, asList]
  | some found =>
    cases found with
    | array items => rw [exprs, asList, exprItems_eq_eachItem]
    | _ => simp [exprs, asList]

/-- What an object holds that an expression is read from. -/
def ExprFields (record : Record) : Expr → Prop
  | .ref name => record.Tagged "ref" ["name"] ∧ record.read asName "name" = .ok name
  | .subfield base name => record.Tagged "subfield" ["expr", "name"] ∧
      record.read expr "expr" = .ok base ∧ record.read asName "name" = .ok name
  | .uintLit value width => record.Tagged "uint_lit" ["value", "width"] ∧
      record.read literalValue "value" = .ok value ∧ record.read optionalCount "width" = .ok width
  | .sintLit value width => record.Tagged "sint_lit" ["value", "width"] ∧
      record.read literalValue "value" = .ok value ∧ record.read optionalCount "width" = .ok width
  | .prim op args consts => record.Tagged "prim" ["op", "args", "consts"] ∧
      record.read asText "op" = .ok op ∧ record.read exprs "args" = .ok args ∧
      record.read (asOptionalList asCount) "consts" = .ok consts
  | .mux cond whenTrue whenFalse => record.Tagged "mux" ["cond", "tval", "fval"] ∧
      record.read expr "cond" = .ok cond ∧ record.read expr "tval" = .ok whenTrue ∧
        record.read expr "fval" = .ok whenFalse
  | .validIf cond value => record.Tagged "validif" ["cond", "value"] ∧
      record.read expr "cond" = .ok cond ∧ record.read expr "value" = .ok value

theorem expr_eq_ok {label : String} {found : Option Json} {value : Expr} : expr label found = .ok value ↔
    ∃ record, asObject label found = .ok record ∧ ExprFields record value := by
  unfold expr
  split
  · rename_i fields
    have opened : asObject label (some (.object fields)) = .ok ⟨label, fields⟩ := rfl
    rw [bind_eq_ok]
    constructor
    · rintro ⟨kind, atKind, read⟩
      refine ⟨_, opened, ?_⟩
      split at read
      · obtain ⟨_, known, name, atName, result⟩ := by simpa only [bind_eq_ok] using read
        exact Except.ok.inj result ▸ ⟨⟨atKind, known⟩, atName⟩
      · obtain ⟨_, known, base, atBase, name, atName, result⟩ := by simpa only [bind_eq_ok] using read
        exact Except.ok.inj result ▸ ⟨⟨atKind, known⟩, atBase, atName⟩
      · obtain ⟨_, known, value, atValue, width, atWidth, result⟩ := by simpa only [bind_eq_ok] using read
        exact Except.ok.inj result ▸ ⟨⟨atKind, known⟩, atValue, atWidth⟩
      · obtain ⟨_, known, value, atValue, width, atWidth, result⟩ := by simpa only [bind_eq_ok] using read
        exact Except.ok.inj result ▸ ⟨⟨atKind, known⟩, atValue, atWidth⟩
      · obtain ⟨_, known, op, atOp, args, atArgs, consts, atConsts, result⟩ := by
          simpa only [bind_eq_ok] using read
        exact Except.ok.inj result ▸ ⟨⟨atKind, known⟩, atOp, atArgs, atConsts⟩
      · obtain ⟨_, known, cond, atCond, whenTrue, atTrue, whenFalse, atFalse, result⟩ := by
          simpa only [bind_eq_ok] using read
        exact Except.ok.inj result ▸ ⟨⟨atKind, known⟩, atCond, atTrue, atFalse⟩
      · obtain ⟨_, known, cond, atCond, value, atValue, result⟩ := by simpa only [bind_eq_ok] using read
        exact Except.ok.inj result ▸ ⟨⟨atKind, known⟩, atCond, atValue⟩
      · cases read
    · rintro ⟨record, atRecord, fields⟩
      obtain rfl := Except.ok.inj (opened.symm.trans atRecord)
      cases value with
      | ref name =>
        obtain ⟨⟨atKind, known⟩, atName⟩ := fields
        exact ⟨_, atKind, bind_ok known <| bind_ok atName rfl⟩
      | subfield base name =>
        obtain ⟨⟨atKind, known⟩, atBase, atName⟩ := fields
        exact ⟨_, atKind, bind_ok known <| bind_ok atBase <| bind_ok atName rfl⟩
      | uintLit value width | sintLit value width =>
        obtain ⟨⟨atKind, known⟩, atValue, atWidth⟩ := fields
        exact ⟨_, atKind, bind_ok known <| bind_ok atValue <| bind_ok atWidth rfl⟩
      | prim op args consts =>
        obtain ⟨⟨atKind, known⟩, atOp, atArgs, atConsts⟩ := fields
        exact ⟨_, atKind, bind_ok known <| bind_ok atOp <| bind_ok atArgs <| bind_ok atConsts rfl⟩
      | mux cond whenTrue whenFalse =>
        obtain ⟨⟨atKind, known⟩, atCond, atTrue, atFalse⟩ := fields
        exact ⟨_, atKind, bind_ok known <| bind_ok atCond <| bind_ok atTrue <| bind_ok atFalse rfl⟩
      | validIf cond value =>
        obtain ⟨⟨atKind, known⟩, atCond, atValue⟩ := fields
        exact ⟨_, atKind, bind_ok known <| bind_ok atCond <| bind_ok atValue rfl⟩
  · rename_i other
    refine iff_of_false (fun read => by cases read) ?_
    rintro ⟨record, atRecord, -⟩
    exact other _ (asObject_eq_ok.mp atRecord).2

/-- What an object holds that the reset of a register is read from. -/
def ResetFields (record : Record) (reset : RegReset) : Prop :=
  record.allowOnly ["signal", "init"] = .ok () ∧ record.read expr "signal" = .ok reset.signal ∧
    record.read expr "init" = .ok reset.init

theorem regReset_eq_ok {label : String} {found : Option Json} {reset : RegReset} :
    regReset label found = .ok reset ↔
    ∃ record, asObject label found = .ok record ∧ ResetFields record reset := by
  refine bind_eq_ok.trans (exists_congr fun record => and_congr_right fun _ => ?_)
  constructor
  · intro read
    obtain ⟨_, known, signal, atSignal, init, atInit, result⟩ := by simpa only [bind_eq_ok] using read
    exact Except.ok.inj result ▸ ⟨known, atSignal, atInit⟩
  · rintro ⟨known, atSignal, atInit⟩
    exact bind_ok known <| bind_ok atSignal <| bind_ok atInit rfl

theorem stmtItems_eq_eachItem (label : String) (position : Nat) (items : List Json) :
    stmtItems label position items = eachItem stmt label position items := by
  induction items generalizing position with
  | nil => rw [stmtItems, eachItem]
  | cons item rest ih =>
    rw [stmtItems, eachItem]
    simp only [ih]

theorem stmts_eq_asList : stmts = asList stmt := by
  funext label found
  cases found with
  | none => simp [stmts, asList]
  | some found =>
    cases found with
    | array items => rw [stmts, asList, stmtItems_eq_eachItem]
    | _ => simp [stmts, asList]

theorem optionalStmts_eq_asOptionalList : optionalStmts = asOptionalList stmt := by
  funext label found
  cases found with
  | none => rw [optionalStmts, asOptionalList]
  | some found =>
    cases found with
    | array items => simp [optionalStmts, asOptionalList, asList, stmtItems_eq_eachItem]
    | _ => simp [optionalStmts, asOptionalList, asList]

/-- What an object holds that a statement is read from. -/
def StmtFields (record : Record) : Stmt → Prop
  | .wire name type => record.Tagged "wire" ["name", "type"] ∧
      record.read asName "name" = .ok name ∧ record.read groundType "type" = .ok type
  | .reg name type clock reset => record.Tagged "reg" ["name", "type", "clock", "reset"] ∧
      record.read asName "name" = .ok name ∧ record.read groundType "type" = .ok type ∧
      record.read expr "clock" = .ok clock ∧ record.read (orAbsent regReset) "reset" = .ok reset
  | .node name value => record.Tagged "node" ["name", "value"] ∧
      record.read asName "name" = .ok name ∧ record.read expr "value" = .ok value
  | .inst name module => record.Tagged "inst" ["name", "module"] ∧
      record.read asName "name" = .ok name ∧ record.read asName "module" = .ok module
  | .mem decl =>
    record.Tagged "mem" ["name", "dataType", "depth", "readLatency", "writeLatency", "readers", "writers",
        "readwriters", "readUnderWrite"] ∧
      record.read asName "name" = .ok decl.name ∧ record.read groundType "dataType" = .ok decl.dataType ∧
      record.read asCount "depth" = .ok decl.depth ∧
        record.read asCount "readLatency" = .ok decl.readLatency ∧
      record.read asCount "writeLatency" = .ok decl.writeLatency ∧
        record.read names "readers" = .ok decl.readers ∧
      record.read names "writers" = .ok decl.writers ∧
        record.read names "readwriters" = .ok decl.readwriters ∧
      record.read readUnderWrite "readUnderWrite" = .ok decl.readUnderWrite
  | .connect loc value => record.Tagged "connect" ["loc", "expr"] ∧
      record.read expr "loc" = .ok loc ∧ record.read expr "expr" = .ok value
  | .invalidate target => record.Tagged "invalidate" ["expr"] ∧ record.read expr "expr" = .ok target
  | .when cond body otherwise => record.Tagged "when" ["cond", "then", "else"] ∧
      record.read expr "cond" = .ok cond ∧ record.read stmts "then" = .ok body ∧
      record.read optionalStmts "else" = .ok otherwise
  | .block body => record.Tagged "block" ["stmts"] ∧ record.read stmts "stmts" = .ok body
  | .stop clock en exitCode => record.Tagged "stop" ["clock", "en", "exitCode"] ∧
      record.read expr "clock" = .ok clock ∧ record.read expr "en" = .ok en ∧
        record.read asCount "exitCode" = .ok exitCode
  | .print clock en format args => record.Tagged "print" ["clock", "en", "format", "args"] ∧
      record.read expr "clock" = .ok clock ∧ record.read expr "en" = .ok en ∧
      record.read asString "format" = .ok format ∧ record.read (asOptionalList expr) "args" = .ok args
  | .skip => record.Tagged "skip" []

theorem stmt_eq_ok {label : String} {found : Option Json} {value : Stmt} : stmt label found = .ok value ↔
    ∃ record, asObject label found = .ok record ∧ StmtFields record value := by
  unfold stmt
  split
  · rename_i fields
    have opened : asObject label (some (.object fields)) = .ok ⟨label, fields⟩ := rfl
    rw [bind_eq_ok]
    constructor
    -- The kinds come in the order in which the reader tells them apart.
    · rintro ⟨kind, atKind, read⟩
      refine ⟨_, opened, ?_⟩
      split at read
      · obtain ⟨_, known, name, atName, type, atType, result⟩ := by simpa only [bind_eq_ok] using read
        exact Except.ok.inj result ▸ ⟨⟨atKind, known⟩, atName, atType⟩
      · obtain ⟨_, known, name, atName, type, atType, clock, atClock, built⟩ := by
          simpa only [bind_eq_ok] using read
        cases held : Record.get? ⟨label, fields⟩ "reset" with
        | none =>
          rw [held] at built
          have atReset : Record.read ⟨label, fields⟩ (orAbsent regReset) "reset" = .ok none := by
            rw [Record.read, held, orAbsent]
          exact Except.ok.inj built ▸ ⟨⟨atKind, known⟩, atName, atType, atClock, atReset⟩
        | some found =>
          rw [held] at built
          obtain ⟨reset, read, result⟩ := bind_eq_ok.mp built
          have atReset : Record.read ⟨label, fields⟩ (orAbsent regReset) "reset" = .ok (some reset) := by
            rw [Record.read, held]
            exact orAbsent_some_eq_ok.mpr ⟨reset, read, rfl⟩
          exact Except.ok.inj result ▸ ⟨⟨atKind, known⟩, atName, atType, atClock, atReset⟩
      · obtain ⟨_, known, name, atName, value, atValue, result⟩ := by simpa only [bind_eq_ok] using read
        exact Except.ok.inj result ▸ ⟨⟨atKind, known⟩, atName, atValue⟩
      · obtain ⟨_, known, name, atName, module, atModule, result⟩ := by simpa only [bind_eq_ok] using read
        exact Except.ok.inj result ▸ ⟨⟨atKind, known⟩, atName, atModule⟩
      · obtain ⟨decl, atDecl, result⟩ := bind_eq_ok.mp read
        simp only [memDecl, bind_eq_ok] at atDecl
        obtain ⟨_, known, name, atName, type, atType, depth, atDepth, readLatency, atRead, writeLatency,
          atWrite, readers, atReaders, writers, atWriters, readwriters, atBoth, rule, atRule, built⟩ := atDecl
        obtain rfl := Except.ok.inj built
        exact Except.ok.inj result ▸
          ⟨⟨atKind, known⟩, atName, atType, atDepth, atRead, atWrite, atReaders, atWriters, atBoth, atRule⟩
      · obtain ⟨_, known, loc, atLoc, value, atValue, result⟩ := by simpa only [bind_eq_ok] using read
        exact Except.ok.inj result ▸ ⟨⟨atKind, known⟩, atLoc, atValue⟩
      · obtain ⟨_, known, target, atTarget, result⟩ := by simpa only [bind_eq_ok] using read
        exact Except.ok.inj result ▸ ⟨⟨atKind, known⟩, atTarget⟩
      · obtain ⟨_, known, cond, atCond, body, atBody, otherwise, atOtherwise, result⟩ := by
          simpa only [bind_eq_ok] using read
        exact Except.ok.inj result ▸ ⟨⟨atKind, known⟩, atCond, atBody, atOtherwise⟩
      · obtain ⟨_, known, body, atBody, result⟩ := by simpa only [bind_eq_ok] using read
        exact Except.ok.inj result ▸ ⟨⟨atKind, known⟩, atBody⟩
      · obtain ⟨_, known, clock, atClock, en, atEn, exitCode, atExit, result⟩ := by
          simpa only [bind_eq_ok] using read
        exact Except.ok.inj result ▸ ⟨⟨atKind, known⟩, atClock, atEn, atExit⟩
      · obtain ⟨_, known, format, atFormat, clock, atClock, en, atEn, args, atArgs, result⟩ := by
          simpa only [bind_eq_ok] using read
        exact Except.ok.inj result ▸ ⟨⟨atKind, known⟩, atClock, atEn, atFormat, atArgs⟩
      · obtain ⟨_, known, result⟩ := bind_eq_ok.mp read
        exact Except.ok.inj result ▸ ⟨atKind, known⟩
      · cases read
    · rintro ⟨record, atRecord, fields⟩
      obtain rfl := Except.ok.inj (opened.symm.trans atRecord)
      cases value with
      | wire name type =>
        obtain ⟨⟨atKind, known⟩, atName, atType⟩ := fields
        exact ⟨_, atKind, bind_ok known <| bind_ok atName <| bind_ok atType rfl⟩
      | reg name type clock reset =>
        obtain ⟨⟨atKind, known⟩, atName, atType, atClock, atReset⟩ := fields
        refine ⟨_, atKind, bind_ok known <| bind_ok atName <| bind_ok atType <| bind_ok atClock ?_⟩
        rw [Record.read] at atReset
        cases held : Record.get? ⟨label, fields⟩ "reset" with
        | none =>
          rw [held, orAbsent] at atReset
          exact Except.ok.inj atReset ▸ rfl
        | some found =>
          rw [held] at atReset
          obtain ⟨value, read, rfl⟩ := orAbsent_some_eq_ok.mp atReset
          exact bind_ok read rfl
      | node name value =>
        obtain ⟨⟨atKind, known⟩, atName, atValue⟩ := fields
        exact ⟨_, atKind, bind_ok known <| bind_ok atName <| bind_ok atValue rfl⟩
      | inst name module =>
        obtain ⟨⟨atKind, known⟩, atName, atModule⟩ := fields
        exact ⟨_, atKind, bind_ok known <| bind_ok atName <| bind_ok atModule rfl⟩
      | mem decl =>
        obtain ⟨⟨atKind, known⟩, atName, atType, atDepth, atRead, atWrite, atReaders, atWriters, atBoth,
          atRule⟩ := fields
        exact ⟨_, atKind, bind_ok (bind_ok known <| bind_ok atName <| bind_ok atType <| bind_ok atDepth <|
          bind_ok atRead <| bind_ok atWrite <| bind_ok atReaders <| bind_ok atWriters <| bind_ok atBoth <|
          bind_ok atRule rfl) rfl⟩
      | connect loc value =>
        obtain ⟨⟨atKind, known⟩, atLoc, atValue⟩ := fields
        exact ⟨_, atKind, bind_ok known <| bind_ok atLoc <| bind_ok atValue rfl⟩
      | invalidate target =>
        obtain ⟨⟨atKind, known⟩, atTarget⟩ := fields
        exact ⟨_, atKind, bind_ok known <| bind_ok atTarget rfl⟩
      | when cond body otherwise =>
        obtain ⟨⟨atKind, known⟩, atCond, atBody, atOtherwise⟩ := fields
        exact ⟨_, atKind, bind_ok known <| bind_ok atCond <| bind_ok atBody <| bind_ok atOtherwise rfl⟩
      | block body =>
        obtain ⟨⟨atKind, known⟩, atBody⟩ := fields
        exact ⟨_, atKind, bind_ok known <| bind_ok atBody rfl⟩
      | stop clock en exitCode =>
        obtain ⟨⟨atKind, known⟩, atClock, atEn, atExit⟩ := fields
        exact ⟨_, atKind, bind_ok known <| bind_ok atClock <| bind_ok atEn <| bind_ok atExit rfl⟩
      | print clock en format args =>
        obtain ⟨⟨atKind, known⟩, atClock, atEn, atFormat, atArgs⟩ := fields
        exact ⟨_, atKind, bind_ok known <| bind_ok atFormat <| bind_ok atClock <| bind_ok atEn <|
          bind_ok atArgs rfl⟩
      | skip =>
        obtain ⟨atKind, known⟩ := fields
        exact ⟨_, atKind, bind_ok known rfl⟩
  · rename_i other
    refine iff_of_false (fun read => by cases read) ?_
    rintro ⟨record, atRecord, -⟩
    exact other _ (asObject_eq_ok.mp atRecord).2

/-- What an object holds that a port is read from. -/
def PortFields (record : Record) (value : Port) : Prop :=
  record.allowOnly ["name", "direction", "type"] = .ok () ∧ record.read asName "name" = .ok value.name ∧
    record.read direction "direction" = .ok value.direction ∧ record.read groundType "type" = .ok value.type

theorem port_eq_ok {label : String} {found : Option Json} {value : Port} : port label found = .ok value ↔
    ∃ record, asObject label found = .ok record ∧ PortFields record value := by
  refine bind_eq_ok.trans (exists_congr fun record => and_congr_right fun _ => ?_)
  constructor
  · intro read
    obtain ⟨_, known, name, atName, side, atSide, type, atType, result⟩ := by
      simpa only [bind_eq_ok] using read
    exact Except.ok.inj result ▸ ⟨known, atName, atSide, atType⟩
  · rintro ⟨known, atName, atSide, atType⟩
    exact bind_ok known <| bind_ok atName <| bind_ok atSide <| bind_ok atType rfl

/-- What an object holds that a parameter is read from. -/
def ParamFields (record : Record) (value : Param) : Prop :=
  record.allowOnly ["name", "value"] = .ok () ∧ record.read asText "name" = .ok value.name ∧
    record.read paramValue "value" = .ok value.value

theorem param_eq_ok {label : String} {found : Option Json} {value : Param} : param label found = .ok value ↔
    ∃ record, asObject label found = .ok record ∧ ParamFields record value := by
  refine bind_eq_ok.trans (exists_congr fun record => and_congr_right fun _ => ?_)
  constructor
  · intro read
    obtain ⟨_, known, name, atName, held, atValue, result⟩ := by simpa only [bind_eq_ok] using read
    exact Except.ok.inj result ▸ ⟨known, atName, atValue⟩
  · rintro ⟨known, atName, atValue⟩
    exact bind_ok known <| bind_ok atName <| bind_ok atValue rfl

/-- What an object holds that a module is read from. -/
def ModuleFields (record : Record) : Module → Prop
  | .regular value =>
      record.Tagged "module" ["name", "ports", "body"] ∧ record.read asName "name" = .ok value.name ∧
      record.read (asList port) "ports" = .ok value.ports ∧ record.read stmts "body" = .ok value.body
  | .external value => record.Tagged "extmodule" ["name", "ports", "defname", "params"] ∧
      record.read asName "name" = .ok value.name ∧ record.read (asList port) "ports" = .ok value.ports ∧
      record.read (defname value.name) "defname" = .ok value.defname ∧
      record.read (asOptionalList param) "params" = .ok value.params

theorem module_eq_ok {label : String} {found : Option Json} {value : Module} :
    module label found = .ok value ↔
    ∃ record, asObject label found = .ok record ∧ ModuleFields record value := by
  refine bind_eq_ok.trans (exists_congr fun record => and_congr_right fun _ => ?_)
  constructor
  · intro read
    obtain ⟨kind, atKind, read⟩ := bind_eq_ok.mp read
    obtain ⟨name, atName, read⟩ := bind_eq_ok.mp read
    obtain ⟨ports, atPorts, read⟩ := bind_eq_ok.mp read
    split at read
    · obtain ⟨_, known, body, atBody, result⟩ := by simpa only [bind_eq_ok] using read
      exact Except.ok.inj result ▸ ⟨⟨atKind, known⟩, atName, atPorts, atBody⟩
    · obtain ⟨_, known, defined, atDefname, params, atParams, result⟩ := by simpa only [bind_eq_ok] using read
      exact Except.ok.inj result ▸ ⟨⟨atKind, known⟩, atName, atPorts, atDefname, atParams⟩
    · cases read
  · intro fields
    cases value with
    | regular value =>
      obtain ⟨⟨atKind, known⟩, atName, atPorts, atBody⟩ := fields
      exact bind_ok atKind <| bind_ok atName <| bind_ok atPorts <| bind_ok known <| bind_ok atBody rfl
    | external value =>
      obtain ⟨⟨atKind, known⟩, atName, atPorts, atDefname, atParams⟩ := fields
      exact bind_ok atKind <| bind_ok atName <| bind_ok atPorts <| bind_ok known <|
        bind_ok atDefname <| bind_ok atParams rfl

/-- What an object holds that a circuit is read from. -/
def CircuitFields (record : Record) (value : Circuit) : Prop :=
  record.allowOnly ["main", "modules"] = .ok () ∧ record.read asName "main" = .ok value.main ∧
    record.read (asList module) "modules" = .ok value.modules

theorem circuit_eq_ok {found : Json} {value : Circuit} : circuit found = .ok value ↔
    ∃ record, asObject "circuit" (some found) = .ok record ∧ CircuitFields record value := by
  refine bind_eq_ok.trans (exists_congr fun record => and_congr_right fun _ => ?_)
  constructor
  · intro read
    obtain ⟨_, known, main, atMain, modules, atModules, result⟩ := by simpa only [bind_eq_ok] using read
    exact Except.ok.inj result ▸ ⟨known, atMain, atModules⟩
  · rintro ⟨known, atMain, atModules⟩
    exact bind_ok known <| bind_ok atMain <| bind_ok atModules rfl

end Decode

end CircuitNames
