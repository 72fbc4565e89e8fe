import CircuitNames.Proofs.FormedCircuits
import CircuitNames.Proofs.ReadObjects
import CircuitNames.Proofs.RegularJson
import Mathlib

namespace CircuitNames

/-- A circuit that was read from some value. -/
def Circuit.Decoded (circuit : Circuit) : Prop := ∃ value, Decode.circuit value = .ok circuit

namespace Json

/-- The numbers in a value are admitted, if there is a value. -/
def Admitted (admits : Number → Prop) (value : Option Json) :
    Prop := ∀ v ∈ value, v.Regular (fun _ => True) admits

end Json

namespace Decode
open Json (Misfit Record asObject asObject_eq_ok asText asCount asName asList asOptionalList Admitted)

variable {admits : Number → Prop}

/-- An item is read from a value whose numbers are admitted. -/
def Stems {α : Type} (admits : Number → Prop) (form : String → Option Json → Except Misfit α) (item : α) :
    Prop :=
  ∃ label found, Admitted admits found ∧ form label found = .ok item

section
variable {α : Type} {form : String → Option Json → Except Misfit α}

theorem stems_of_field {β : Type} {field : String → Option Json → Except Misfit β} {label key : String}
    {found : Option Json} {record : Record} {part : β} (admitted : Admitted admits found)
    (atRecord : asObject label found = .ok record) (read : record.read field key = .ok part) :
    Stems admits field part := by
  obtain ⟨-, rfl⟩ := asObject_eq_ok.mp atRecord
  exact ⟨_, _, fun _ present => Json.regular_of_lookup (admitted _ rfl) present, read⟩

/-- So is what an item is read from field by field. -/
theorem Stems.object {Fields : Record → α → Prop} {item : α}
    (shape : ∀ label found, form label found = .ok item ↔
      ∃ record, asObject label found = .ok record ∧ Fields record item)
    (stems : Stems admits form item) : ∃ record : Record,
      (∀ {β : Type} {field : String → Option Json → Except Misfit β} {key : String} {part : β},
        record.read field key = .ok part → Stems admits field part) ∧ Fields record item := by
  obtain ⟨label, found, admitted, read⟩ := stems
  obtain ⟨record, atRecord, fields⟩ := (shape label found).mp read
  exact ⟨record, stems_of_field admitted atRecord, fields⟩

theorem Stems.of_mem {items : List α} (stems : Stems admits (asList form) items) :
    ∀ item ∈ items, Stems admits form item := by
  obtain ⟨label, found, admitted, read⟩ := stems
  intro item inside
  obtain ⟨values, rfl, own, value, member, atItem⟩ := exists_of_mem_asList read item inside
  exact ⟨own, value, fun _ same => Option.some.inj same ▸
    Json.regularItems_iff.mp (admitted _ rfl) value member, atItem⟩

theorem Stems.of_mem_optional {items : List α} (stems : Stems admits (asOptionalList form) items) :
    ∀ item ∈ items, Stems admits form item := by
  obtain ⟨label, found, admitted, read⟩ := stems
  unfold asOptionalList at read
  split at read
  · exact Except.ok.inj read ▸ List.forall_mem_nil _
  · exact Stems.of_mem ⟨label, _, admitted, read⟩

theorem Stems.of_present {item : Option α} (stems : Stems admits (orAbsent form) item) :
    ∀ v ∈ item, Stems admits form v := by
  obtain ⟨label, found, admitted, read⟩ := stems
  cases found with
  | none =>
    obtain rfl := Except.ok.inj read
    intro v absent
    cases absent
  | some found =>
    obtain ⟨value, atValue, rfl⟩ := orAbsent_some_eq_ok.mp read
    exact fun v same => Option.some.inj same ▸ ⟨label, _, admitted, atValue⟩

end

theorem asName_identifier {label name : String} {value : Option Json} (read : asName label value = .ok name) :
    isIdentifier name = true := by
  obtain ⟨text, _, checked⟩ := bind_eq_ok.mp read
  split at checked
  · rename_i identifier
    exact Except.ok.inj checked ▸ identifier
  · cases checked

theorem asText_nonempty {label text : String} {value : Option Json} (read : asText label value = .ok text) :
    text ≠ "" := by
  unfold asText at read
  split at read
  · split at read
    · cases read
    · rename_i nonempty
      obtain rfl := Except.ok.inj read
      simpa using nonempty
  · cases read

theorem Stems.identifier {name : String} (stems : Stems admits asName name) : isIdentifier name = true := by
  obtain ⟨label, found, -, read⟩ := stems
  exact asName_identifier read

theorem Stems.nonempty {text : String} (stems : Stems admits asText text) : text ≠ "" := by
  obtain ⟨label, found, -, read⟩ := stems
  exact asText_nonempty read

theorem Stems.counts {count : Number} (stems : Stems admits asCount count) : count.Counts admits := by
  obtain ⟨label, found, admitted, read⟩ := stems
  unfold asCount at read
  split at read
  · split at read
    · rename_i isCount
      exact Except.ok.inj read ▸ ⟨isCount, admitted _ rfl⟩
    · cases read
  · cases read

theorem Stems.width_counts {width : Option Number} (stems : Stems admits optionalCount width) :
    ∀ count ∈ width, count.Counts admits := by
  rw [optionalCount_eq_orAbsent] at stems
  exact fun count held => (stems.of_present count held).counts

theorem Stems.isInteger {text : String} (stems : Stems admits literalValue text) : isInteger text = true := by
  obtain ⟨label, found, -, read⟩ := stems
  obtain ⟨text, _, checked⟩ := bind_eq_ok.mp read
  split at checked
  · rename_i isValue
    exact Except.ok.inj checked ▸ isValue
  · cases checked

theorem Stems.identifiers {found : List String} (stems : Stems admits names found) :
    ∀ name ∈ found, isIdentifier name = true :=
  fun name inside => (stems.of_mem_optional name inside).identifier

theorem Stems.type_counted {type : GroundType} (stems : Stems admits groundType type) :
    type.Counted admits := by
  obtain ⟨record, held, fields⟩ := stems.object fun _ _ => groundType_eq_ok
  cases type with
  | uint width | sint width | analog width => exact (held fields.2).width_counts
  | clock | reset | asyncReset => trivial

mutual

/-- An expression that was read has identifiers for names, and numbers and literals that can be written, by
structural recursion along the recursion of the reader. -/
theorem expr_legible : ∀ expr : Expr, Stems admits Decode.expr expr → expr.Identified ∧ expr.Formed admits
  | .ref name, stems => by
    obtain ⟨record, held, -, atName⟩ := stems.object fun _ _ => expr_eq_ok
    exact ⟨List.forall_mem_singleton.mpr (held atName).identifier, trivial⟩
  | .subfield base name, stems => by
    obtain ⟨record, held, -, atBase, atName⟩ := stems.object fun _ _ => expr_eq_ok
    obtain ⟨names, formed⟩ := expr_legible base (held atBase)
    exact ⟨List.forall_mem_append.mpr ⟨names, List.forall_mem_singleton.mpr (held atName).identifier⟩, formed⟩
  | .uintLit value width, stems => by
    obtain ⟨record, held, -, atValue, atWidth⟩ := stems.object fun _ _ => expr_eq_ok
    exact ⟨List.forall_mem_nil _, (held atValue).isInteger, (held atWidth).width_counts⟩
  | .sintLit value width, stems => by
    obtain ⟨record, held, -, atValue, atWidth⟩ := stems.object fun _ _ => expr_eq_ok
    exact ⟨List.forall_mem_nil _, (held atValue).isInteger, (held atWidth).width_counts⟩
  | .prim op args consts, stems => by
    obtain ⟨record, held, -, atOp, atArgs, atConsts⟩ := stems.object fun _ _ => expr_eq_ok
    rw [exprs_eq_asList] at atArgs
    obtain ⟨names, formed⟩ := Expr.legibleAll_iff.mpr (each_expr_legible args (held atArgs).of_mem)
    exact ⟨names, (held atOp).nonempty, formed,
      fun count inside => ((held atConsts).of_mem_optional count inside).counts⟩
  | .mux cond whenTrue whenFalse, stems => by
    obtain ⟨record, held, -, atCond, atTrue, atFalse⟩ := stems.object fun _ _ => expr_eq_ok
    obtain ⟨inCond, condOk⟩ := expr_legible cond (held atCond)
    obtain ⟨inTrue, trueOk⟩ := expr_legible whenTrue (held atTrue)
    obtain ⟨inFalse, falseOk⟩ := expr_legible whenFalse (held atFalse)
    exact ⟨List.forall_mem_append.mpr ⟨List.forall_mem_append.mpr ⟨inCond, inTrue⟩, inFalse⟩, condOk,
      trueOk, falseOk⟩
  | .validIf cond value, stems => by
    obtain ⟨record, held, -, atCond, atValue⟩ := stems.object fun _ _ => expr_eq_ok
    obtain ⟨inCond, condOk⟩ := expr_legible cond (held atCond)
    obtain ⟨inValue, valueOk⟩ := expr_legible value (held atValue)
    exact ⟨List.forall_mem_append.mpr ⟨inCond, inValue⟩, condOk, valueOk⟩

theorem each_expr_legible : ∀ exprs : List Expr, (∀ expr ∈ exprs, Stems admits Decode.expr expr) →
    ∀ expr ∈ exprs, expr.Identified ∧ expr.Formed admits
  | [], _ => List.forall_mem_nil _
  | expr :: rest, stem => by
    obtain ⟨first, later⟩ := List.forall_mem_cons.mp stem
    exact List.forall_mem_cons.mpr ⟨expr_legible expr first, each_expr_legible rest later⟩

end

mutual

/-- Every part of a statement that is read is read itself. -/
theorem part_stems :
    ∀ stmt : Stmt, Stems admits Decode.stmt stmt → ∀ part ∈ stmt.walk, Stems admits Decode.stmt part
  | .when cond body otherwise, stems => by
    obtain ⟨record, held, -, -, atBody, atOtherwise⟩ := stems.object fun _ _ => stmt_eq_ok
    rw [stmts_eq_asList] at atBody
    rw [optionalStmts_eq_asOptionalList] at atOtherwise
    exact List.forall_mem_cons.mpr ⟨stems, List.forall_mem_append.mpr
      ⟨part_stems_all body (held atBody).of_mem, part_stems_all otherwise (held atOtherwise).of_mem_optional⟩⟩
  | .block body, stems => by
    obtain ⟨record, held, -, atBody⟩ := stems.object fun _ _ => stmt_eq_ok
    rw [stmts_eq_asList] at atBody
    exact List.forall_mem_cons.mpr ⟨stems, part_stems_all body (held atBody).of_mem⟩
  | .wire .., stems | .reg .., stems | .node .., stems | .inst .., stems | .mem _, stems | .connect .., stems
  | .invalidate _, stems | .stop .., stems | .print .., stems | .skip, stems =>
    List.forall_mem_singleton.mpr stems

/-- Statements stem from the same value as the ones they are nested in. -/
theorem part_stems_all : ∀ stmts : List Stmt, (∀ stmt ∈ stmts, Stems admits Decode.stmt stmt) →
    ∀ part ∈ Stmt.walkAll stmts, Stems admits Decode.stmt part
  | [], _ => List.forall_mem_nil _
  | stmt :: rest, stem => by
    obtain ⟨first, later⟩ := List.forall_mem_cons.mp stem
    exact List.forall_mem_append.mpr ⟨part_stems stmt first, part_stems_all rest later⟩

end

theorem stmt_legible {stmt : Stmt} (stems : Stems admits Decode.stmt stmt) : stmt.Legible admits := by
  obtain ⟨record, held, fields⟩ := stems.object fun _ _ => stmt_eq_ok
  refine Stmt.legible_iff.mpr ?_
  have nothing := List.forall_mem_nil fun name => isIdentifier name = true
  have noExpr := List.forall_mem_nil fun expr : Expr => expr.Identified ∧ expr.Formed admits
  have read {key : String} {part : Expr} (atPart : record.read expr key = .ok part) : part.Identified ∧
      part.Formed admits :=
    expr_legible part (held atPart)
  cases stmt with
  | wire name type =>
    obtain ⟨-, atName, atType⟩ := fields
    exact ⟨List.forall_mem_singleton.mpr (held atName).identifier, (held atType).type_counted, noExpr⟩
  | reg name type clock reset =>
    obtain ⟨-, atName, atType, atClock, atReset⟩ := fields
    refine ⟨List.forall_mem_singleton.mpr (held atName).identifier, (held atType).type_counted, ?_⟩
    cases reset with
    | none => exact List.forall_mem_singleton.mpr (read atClock)
    | some reset =>
      obtain ⟨inner, inside, -, atSignal, atInit⟩ :=
        ((held atReset).of_present reset rfl).object fun _ _ => regReset_eq_ok
      exact List.forall_mem_cons.mpr ⟨read atClock, List.forall_mem_cons.mpr
        ⟨expr_legible _ (inside atSignal), List.forall_mem_singleton.mpr (expr_legible _ (inside atInit))⟩⟩
  | node name value =>
    obtain ⟨-, atName, atValue⟩ := fields
    exact ⟨List.forall_mem_singleton.mpr (held atName).identifier, trivial,
      List.forall_mem_singleton.mpr (read atValue)⟩
  | inst name module =>
    obtain ⟨-, atName, atModule⟩ := fields
    exact ⟨List.forall_mem_cons.mpr
      ⟨(held atName).identifier, List.forall_mem_singleton.mpr (held atModule).identifier⟩, trivial, noExpr⟩
  | mem decl =>
    obtain ⟨-, atName, atType, atDepth, atRead, atWrite, atReaders, atWriters, atBoth, -⟩ := fields
    have ports := List.forall_mem_append.mpr ⟨List.forall_mem_append.mpr
      ⟨(held atReaders).identifiers, (held atWriters).identifiers⟩, (held atBoth).identifiers⟩
    exact ⟨List.forall_mem_cons.mpr ⟨(held atName).identifier, ports⟩,
      ⟨(held atType).type_counted, (held atDepth).counts, (held atRead).counts, (held atWrite).counts⟩,
      noExpr⟩
  | connect loc value =>
    obtain ⟨-, atLoc, atValue⟩ := fields
    exact ⟨nothing, trivial,
      List.forall_mem_cons.mpr ⟨read atLoc, List.forall_mem_singleton.mpr (read atValue)⟩⟩
  | invalidate target => exact ⟨nothing, trivial, List.forall_mem_singleton.mpr (read fields.2)⟩
  | when cond body otherwise =>
    obtain ⟨-, atCond, -⟩ := fields
    exact ⟨nothing, trivial, List.forall_mem_singleton.mpr (read atCond)⟩
  | block body => exact ⟨nothing, trivial, noExpr⟩
  | stop clock en exitCode =>
    obtain ⟨-, atClock, atEn, atExit⟩ := fields
    exact ⟨nothing, (held atExit).counts,
      List.forall_mem_cons.mpr ⟨read atClock, List.forall_mem_singleton.mpr (read atEn)⟩⟩
  | print clock en format args =>
    obtain ⟨-, atClock, atEn, -, atArgs⟩ := fields
    have each := fun arg inside => expr_legible arg ((held atArgs).of_mem_optional arg inside)
    exact ⟨nothing, trivial,
      List.forall_mem_cons.mpr ⟨read atClock, List.forall_mem_cons.mpr ⟨read atEn, each⟩⟩⟩
  | skip => exact ⟨nothing, trivial, noExpr⟩

theorem Stems.port_legible {port : Port} (stems : Stems admits Decode.port port) :
    isIdentifier port.name = true ∧ port.type.Counted admits := by
  obtain ⟨record, held, -, atName, -, atType⟩ := stems.object fun _ _ => port_eq_ok
  exact ⟨(held atName).identifier, (held atType).type_counted⟩

theorem Stems.value_admitted {value : ParamValue} (stems : Stems admits Decode.paramValue value) :
    value.Admitted admits := by
  obtain ⟨label, found, admitted, read⟩ := stems
  unfold Decode.paramValue at read
  split at read
  · exact Except.ok.inj read ▸ trivial
  · exact Except.ok.inj read ▸ admitted _ rfl
  · cases read

theorem Stems.param_formed {param : Param} (stems : Stems admits Decode.param param) :
    param.name ≠ "" ∧ param.value.Admitted admits := by
  obtain ⟨record, held, -, atName, atValue⟩ := stems.object fun _ _ => param_eq_ok
  exact ⟨(held atName).nonempty, (held atValue).value_admitted⟩

theorem Stems.defname_nonempty {name defined : String} (named : name ≠ "")
    (stems : Stems admits (Decode.defname name) defined) :
    defined ≠ "" := by
  obtain ⟨label, found, -, read⟩ := stems
  unfold Decode.defname at read
  split at read
  · exact Except.ok.inj read ▸ named
  · exact asText_nonempty read

theorem module_legible {module : Module} (stems : Stems admits Decode.module module) :
    (∀ name ∈ module.names, isIdentifier name = true) ∧ module.Formed admits := by
  obtain ⟨record, held, fields⟩ := stems.object fun _ _ => module_eq_ok
  cases module with
  | regular module =>
    obtain ⟨-, atName, atPorts, atBody⟩ := fields
    rw [stmts_eq_asList] at atBody
    exact Module.regular_legible_iff.mpr
      ⟨(held atName).identifier, fun port inside => ((held atPorts).of_mem port inside).port_legible,
      fun part inside => stmt_legible (part_stems_all module.body (held atBody).of_mem part inside)⟩
  | external module =>
    obtain ⟨-, atName, atPorts, atDefname, atParams⟩ := fields
    have nameOk := (held atName).identifier
    have named : module.name ≠ "" := by
      intro empty
      rw [empty] at nameOk
      cases nameOk
    exact Module.external_legible_iff.mpr
      ⟨nameOk, fun port inside => ((held atPorts).of_mem port inside).port_legible,
      (held atDefname).defname_nonempty named, fun param inside =>
        ((held atParams).of_mem_optional param inside).param_formed⟩

/-- What is read is well formed. No name passes that is not an identifier, every number and every text is one
that a written circuit may have, and no numbers are made up: what holds of those in the value holds of those
in the circuit. -/
theorem circuit_legible {value : Json} {result : Circuit} (regular : value.Regular (fun _ => True) admits)
    (read : circuit value = .ok result) : result.Identified ∧ result.Formed admits := by
  obtain ⟨record, atRecord, -, atMain, atModules⟩ := circuit_eq_ok.mp read
  have admitted : Admitted admits (some value) := fun _ same => Option.some.inj same ▸ regular
  have main := stems_of_field admitted atRecord atMain
  have modules := (stems_of_field admitted atRecord atModules).of_mem
  exact ⟨⟨main.identifier, fun module inside => (module_legible (modules module inside)).1⟩,
    fun module inside => (module_legible (modules module inside)).2⟩

/-- What is read is well formed, and its numbers are among those of the value. -/
theorem circuit_formed {value : Json} {result : Circuit} (regular : value.Regular (fun _ => True) admits)
    (read : circuit value = .ok result) : result.Formed admits := (circuit_legible regular read).2

end Decode

/-- Reading lets no name pass that is not an identifier. -/
theorem Circuit.Decoded.identified {circuit : Circuit} (decoded : circuit.Decoded) : circuit.Identified := by
  obtain ⟨value, read⟩ := decoded
  exact (Decode.circuit_legible (Json.regular_any value) read).1

theorem Circuit.Decoded.formed {circuit : Circuit} (decoded : circuit.Decoded) :
    circuit.Formed fun _ => True := by
  obtain ⟨value, read⟩ := decoded
  exact Decode.circuit_formed (Json.regular_any value) read

namespace Circuit.Sample

def port (name : String) : Json :=
  .object [("name", .string name), ("direction", .string "input"),
    ("type", .object [("kind", .string "uint")])]

def ref (name : String) : Json := .object [("kind", .string "ref"), ("name", .string name)]

def field (base : Json) (name : String) : Json :=
  .object [("kind", .string "subfield"), ("expr", base), ("name", .string name)]

def connect (loc value : Json) : Json := .object [("kind", .string "connect"), ("loc", loc), ("expr", value)]

def inst (name module : String) : Json :=
  .object [("kind", .string "inst"), ("name", .string name), ("module", .string module)]

def memoryValue : Json := .object [("kind", .string "mem"), ("name", .string "Mem"),
  ("dataType", .object [("kind", .string "uint")]), ("depth", .number .zero), ("readLatency", .number .zero),
  ("writeLatency", .number .zero), ("readers", .array [.string "R", .string "r"])]

def nestedValue : Json := .object [("kind", .string "when"), ("cond", ref "En"),
  ("then", .array [connect (field (ref "U") "A") (field (field (ref "Mem") "R") "data")]),
  ("else", .array [.object [("kind", .string "block"), ("stmts", .array [inst "X" "Ext",
    connect (field (ref "X") "Q") (field (ref "Mem") "r")])]])]

def topValue : Json := .object [("kind", .string "module"), ("name", .string "Top"),
  ("ports", .array [port "En", port "en"]), ("body", .array [inst "U" "Sub", memoryValue, nestedValue])]

def subValue : Json := .object [("kind", .string "module"), ("name", .string "Sub"),
  ("ports", .array [port "A"]), ("body", .array [])]

def extValue : Json := .object [("kind", .string "extmodule"), ("name", .string "Ext"),
  ("ports", .array [port "Q"])]

/-- A circuit with nested statements, a memory, and names that differ in their case only. -/
def value : Json :=
  .object [("main", .string "Top"), ("modules", .array [topValue, subValue, extValue])]

def memory : MemDecl := ⟨"Mem", .uint none, .zero, .zero, .zero, ["R", "r"], [], [], .undefined⟩

def nested : Stmt :=
  .when (.ref "En") [.connect (.subfield (.ref "U") "A") (.subfield (.subfield (.ref "Mem") "R") "data")]
    [.block [.inst "X" "Ext", .connect (.subfield (.ref "X") "Q") (.subfield (.ref "Mem") "r")]]

def top : RegularModule where
  name := "Top"
  ports := [⟨"En", .input, .uint none⟩, ⟨"en", .input, .uint none⟩]
  body := [.inst "U" "Sub", .mem memory, nested]

def sub : RegularModule := ⟨"Sub", [⟨"A", .input, .uint none⟩], []⟩

def ext : ExternalModule := ⟨"Ext", [⟨"Q", .input, .uint none⟩], "Ext", []⟩

/-- The circuit that the value is read as. -/
def circuit : Circuit := ⟨"Top", [.regular top, .regular sub, .external ext]⟩

theorem memory_read (label : String) : Decode.stmt label (some memoryValue) = .ok (.mem memory) := by
  have counted (label : String) : Json.asCount label (some (.number .zero)) = .ok .zero := by
    simp [Json.asCount, Number.isCount, Number.zero]
  have named (label : String) : Json.asName label (some (.string "Mem")) = .ok "Mem" := by cbv
  have typed (label : String) :
      Decode.groundType label (some (.object [("kind", .string "uint")])) = .ok (.uint none) := by cbv
  have readers (label : String) :
      Decode.names label (some (.array [.string "R", .string "r"])) = .ok ["R", "r"] := by cbv
  rw [memoryValue, Decode.stmt]
  refine bind_eq_ok.mpr ⟨"mem", by cbv, bind_eq_ok.mpr ⟨memory, ?_, rfl⟩⟩
  refine bind_eq_ok.mpr ⟨(), by cbv, bind_eq_ok.mpr ⟨_, named _, bind_eq_ok.mpr ⟨_, typed _, ?_⟩⟩⟩
  refine bind_eq_ok.mpr ⟨_, counted _, bind_eq_ok.mpr ⟨_, counted _, bind_eq_ok.mpr ⟨_, counted _, ?_⟩⟩⟩
  exact bind_eq_ok.mpr ⟨_, readers _, rfl⟩

set_option maxRecDepth 2000 in
theorem nested_read (label : String) : Decode.stmt label (some nestedValue) = .ok nested := by cbv

theorem top_read (label : String) : Decode.module label (some topValue) = .ok (.regular top) := by
  have instances (label : String) : Decode.stmt label (some (inst "U" "Sub")) =
    .ok (.inst "U" "Sub") := by cbv
  have ports (label : String) :
      Json.asList Decode.port label (some (.array [port "En", port "en"])) = .ok top.ports := by cbv
  have body (label : String) :
      Decode.stmts label (some (.array [inst "U" "Sub", memoryValue, nestedValue])) = .ok top.body := by
    simp only [Decode.stmts, Decode.stmtItems, instances, memory_read, nested_read]
    rfl
  rw [topValue, Decode.module]
  refine bind_eq_ok.mpr ⟨_, rfl, bind_eq_ok.mpr ⟨"module", by cbv, bind_eq_ok.mpr ⟨"Top", by cbv, ?_⟩⟩⟩
  exact bind_eq_ok.mpr ⟨_, ports _, bind_eq_ok.mpr ⟨(), by cbv, bind_eq_ok.mpr ⟨_, body _, rfl⟩⟩⟩

theorem sub_read (label : String) : Decode.module label (some subValue) = .ok (.regular sub) := by cbv

theorem ext_read (label : String) : Decode.module label (some extValue) = .ok (.external ext) := by cbv

theorem decoded : circuit.Decoded := by
  have read (label : String) :
      Json.asList Decode.module label (some (.array [topValue, subValue, extValue])) =
      .ok circuit.modules := by
    simp only [Json.asList, Json.eachItem, top_read, sub_read, ext_read]
    rfl
  refine ⟨value, bind_eq_ok.mpr
    ⟨⟨"circuit", _⟩, rfl, bind_eq_ok.mpr ⟨(), rfl, bind_eq_ok.mpr ⟨"Top", by cbv, ?_⟩⟩⟩⟩
  exact bind_eq_ok.mpr ⟨circuit.modules, read _, rfl⟩

theorem distinct : circuit.Distinct := by decide

theorem ordered : circuit.leafToRoot = .ok [.regular sub, .external ext, .regular top] := by cbv

end Circuit.Sample

end CircuitNames
