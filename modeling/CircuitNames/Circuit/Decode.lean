import CircuitNames.Circuit.Basic
import CircuitNames.Json.Form

namespace CircuitNames

namespace Decode

open Json (Misfit Record asObject asText asString asCount asName asList asOptionalList)

/-- An optional count. -/
def optionalCount (label : String) : Option Json → Except Misfit (Option Number)
  | none => .ok none
  | value => (asCount label value).map some

def names : String → Option Json → Except Misfit (List String) := asOptionalList asName

/-- A type; only the types of numbers can have a width. -/
def groundType (label : String) (value : Option Json) : Except Misfit GroundType := do
  let record ← asObject label value
  let sized (build : Option Number → GroundType) : Except Misfit GroundType := do
    record.allowOnly ["kind", "width"]
    return build (← record.read optionalCount "width")
  let plain (type : GroundType) : Except Misfit GroundType := do
    record.allowOnly ["kind"]
    return type
  match ← record.read asText "kind" with
  | "uint" => sized .uint
  | "sint" => sized .sint
  | "analog" => sized .analog
  | "clock" => plain .clock
  | "reset" => plain .reset
  | "async_reset" => plain .asyncReset
  | kind => .error ⟨label, .unknownKind "type" kind⟩

/-- Decimal digits, at least one, with or without a minus sign before them. -/
def isInteger (text : String) : Bool :=
  match text.toList with
  | '-' :: digits => !digits.isEmpty && digits.all Char.isDigit
  | digits => !digits.isEmpty && digits.all Char.isDigit

/-- The digits of a literal, which has them as a text. -/
def literalValue (label : String) (value : Option Json) : Except Misfit String := do
  let text ← asText label value
  if isInteger text then return text else .error ⟨label, .notInteger text⟩

theorem sizeOf_pos (items : List Json) : 0 < sizeOf items := by
  cases items with
  | nil => exact Nat.one_pos
  | cons => simp only [List.cons.sizeOf_spec]; omega

mutual

/-- An expression. What its key `kind` says decides which other keys it has; any further one is refused. -/
def expr (label : String) : Option Json → Except Misfit Expr
  | some (.object fields) => do
    let record : Record := ⟨label, fields⟩
    match ← record.read asText "kind" with
    | "ref" =>
      record.allowOnly ["kind", "name"]
      return .ref (← record.read asName "name")
    | "subfield" =>
      record.allowOnly ["kind", "expr", "name"]
      return .subfield (← expr (record.labelOf "expr") (record.get? "expr"))
        (← record.read asName "name")
    | "uint_lit" =>
      record.allowOnly ["kind", "value", "width"]
      return .uintLit (← record.read literalValue "value") (← record.read optionalCount "width")
    | "sint_lit" =>
      record.allowOnly ["kind", "value", "width"]
      return .sintLit (← record.read literalValue "value") (← record.read optionalCount "width")
    | "prim" =>
      record.allowOnly ["kind", "op", "args", "consts"]
      return .prim (← record.read asText "op")
        (← exprs (record.labelOf "args") (record.get? "args"))
        (← record.read (asOptionalList asCount) "consts")
    | "mux" =>
      record.allowOnly ["kind", "cond", "tval", "fval"]
      return .mux (← expr (record.labelOf "cond") (record.get? "cond"))
        (← expr (record.labelOf "tval") (record.get? "tval"))
        (← expr (record.labelOf "fval") (record.get? "fval"))
    | "validif" =>
      record.allowOnly ["kind", "cond", "value"]
      return .validIf (← expr (record.labelOf "cond") (record.get? "cond"))
        (← expr (record.labelOf "value") (record.get? "value"))
    | kind => .error ⟨label, .unknownKind "expression" kind⟩
  | _ => .error ⟨label, .notObject⟩
termination_by value => sizeOf value
decreasing_by all_goals exact Record.sizeOf_get?_lt _ _

def exprs (label : String) : Option Json → Except Misfit (List Expr)
  | some (.array items) => exprItems label 0 items
  | _ => .error ⟨label, .notArray⟩
termination_by value => sizeOf value
decreasing_by
  simp only [Option.some.sizeOf_spec, Json.array.sizeOf_spec]
  omega

def exprItems (label : String) (position : Nat) : List Json → Except Misfit (List Expr)
  | [] => .ok []
  | item :: rest => do
    let first ← expr s!"{label}[{position}]" (some item)
    return first :: (← exprItems label (position + 1) rest)
termination_by items => sizeOf items
decreasing_by
  all_goals
    simp only [Option.some.sizeOf_spec, List.cons.sizeOf_spec]
    have := sizeOf_pos rest
    omega

end

def readUnderWrite (label : String) : Option Json → Except Misfit ReadUnderWrite
  | none => .ok .undefined
  | some (.string "old") => .ok .old
  | some (.string "new") => .ok .new
  | some (.string "undefined") => .ok .undefined
  | _ => .error ⟨label, .notReadUnderWrite⟩

def regReset (label : String) (value : Option Json) : Except Misfit RegReset := do
  let record ← asObject label value
  record.allowOnly ["signal", "init"]
  return ⟨← record.read expr "signal", ← record.read expr "init"⟩

/-- A memory. Its ports and what a read sees under a write are optional. -/
def memDecl (record : Record) : Except Misfit MemDecl := do
  record.allowOnly ["kind", "name", "dataType", "depth", "readLatency", "writeLatency", "readers",
    "writers", "readwriters", "readUnderWrite"]
  return {
    name := ← record.read asName "name"
    dataType := ← record.read groundType "dataType"
    depth := ← record.read asCount "depth"
    readLatency := ← record.read asCount "readLatency"
    writeLatency := ← record.read asCount "writeLatency"
    readers := ← record.read names "readers"
    writers := ← record.read names "writers"
    readwriters := ← record.read names "readwriters"
    readUnderWrite := ← record.read readUnderWrite "readUnderWrite" }

mutual

/-- A statement. The branch of a `when` that is taken otherwise is optional, as are the operands of a `print`.
-/
def stmt (label : String) : Option Json → Except Misfit Stmt
  | some (.object fields) => do
    let record : Record := ⟨label, fields⟩
    match ← record.read asText "kind" with
    | "wire" =>
      record.allowOnly ["kind", "name", "type"]
      return .wire (← record.read asName "name") (← record.read groundType "type")
    | "reg" =>
      record.allowOnly ["kind", "name", "type", "clock", "reset"]
      let name ← record.read asName "name"
      let type ← record.read groundType "type"
      let clock ← record.read expr "clock"
      match record.get? "reset" with
      | none => return .reg name type clock none
      | reset => return .reg name type clock (some (← regReset (record.labelOf "reset") reset))
    | "node" =>
      record.allowOnly ["kind", "name", "value"]
      return .node (← record.read asName "name") (← record.read expr "value")
    | "inst" =>
      record.allowOnly ["kind", "name", "module"]
      return .inst (← record.read asName "name") (← record.read asName "module")
    | "mem" => return .mem (← memDecl record)
    | "connect" =>
      record.allowOnly ["kind", "loc", "expr"]
      return .connect (← record.read expr "loc") (← record.read expr "expr")
    | "invalidate" =>
      record.allowOnly ["kind", "expr"]
      return .invalidate (← record.read expr "expr")
    | "when" =>
      record.allowOnly ["kind", "cond", "then", "else"]
      return .when (← record.read expr "cond")
        (← stmts (record.labelOf "then") (record.get? "then"))
        (← optionalStmts (record.labelOf "else") (record.get? "else"))
    | "block" =>
      record.allowOnly ["kind", "stmts"]
      return .block (← stmts (record.labelOf "stmts") (record.get? "stmts"))
    | "stop" =>
      record.allowOnly ["kind", "clock", "en", "exitCode"]
      return .stop (← record.read expr "clock") (← record.read expr "en")
        (← record.read asCount "exitCode")
    | "print" =>
      record.allowOnly ["kind", "clock", "en", "format", "args"]
      let format ← record.read asString "format"
      return .print (← record.read expr "clock") (← record.read expr "en") format
        (← record.read (asOptionalList expr) "args")
    | "skip" =>
      record.allowOnly ["kind"]
      return .skip
    | kind => .error ⟨label, .unknownKind "statement" kind⟩
  | _ => .error ⟨label, .notObject⟩
termination_by value => sizeOf value
decreasing_by all_goals exact Record.sizeOf_get?_lt _ _

/-- The statements of an optional field, none when it is left out. -/
def optionalStmts (label : String) : Option Json → Except Misfit (List Stmt)
  | none => .ok []
  | some (.array items) => stmtItems label 0 items
  | some _ => .error ⟨label, .notArray⟩
termination_by value => sizeOf value
decreasing_by
  simp only [Option.some.sizeOf_spec, Json.array.sizeOf_spec]
  omega

def stmts (label : String) : Option Json → Except Misfit (List Stmt)
  | some (.array items) => stmtItems label 0 items
  | _ => .error ⟨label, .notArray⟩
termination_by value => sizeOf value
decreasing_by
  simp only [Option.some.sizeOf_spec, Json.array.sizeOf_spec]
  omega

def stmtItems (label : String) (position : Nat) : List Json → Except Misfit (List Stmt)
  | [] => .ok []
  | item :: rest => do
    let first ← stmt s!"{label}[{position}]" (some item)
    return first :: (← stmtItems label (position + 1) rest)
termination_by items => sizeOf items
decreasing_by
  all_goals
    simp only [Option.some.sizeOf_spec, List.cons.sizeOf_spec]
    have := sizeOf_pos rest
    omega

end

def direction (label : String) : Option Json → Except Misfit Direction
  | some (.string "input") => .ok .input
  | some (.string "output") => .ok .output
  | _ => .error ⟨label, .notDirection⟩

def port (label : String) (value : Option Json) : Except Misfit Port := do
  let record ← asObject label value
  record.allowOnly ["name", "direction", "type"]
  return ⟨← record.read asName "name", ← record.read direction "direction",
    ← record.read groundType "type"⟩

def paramValue (label : String) : Option Json → Except Misfit ParamValue
  | some (.string value) => .ok (.string value)
  | some (.number value) => .ok (.number value)
  | _ => .error ⟨label, .notParameter⟩

def param (label : String) (value : Option Json) : Except Misfit Param := do
  let record ← asObject label value
  record.allowOnly ["name", "value"]
  return ⟨← record.read asText "name", ← record.read paramValue "value"⟩

/-- The name an external module is defined under, its own name unless another one is given. -/
def defname (name label : String) : Option Json → Except Misfit String
  | none => .ok name
  | value => asText label value

/-- A module, regular or external. Which keys it may have is looked at when it is known which of the two it
is. -/
def module (label : String) (value : Option Json) : Except Misfit Module := do
  let record ← asObject label value
  let kind ← record.read asText "kind"
  let name ← record.read asName "name"
  let ports ← record.read (asList port) "ports"
  match kind with
  | "module" =>
    record.allowOnly ["kind", "name", "ports", "body"]
    return .regular ⟨name, ports, ← record.read stmts "body"⟩
  | "extmodule" =>
    record.allowOnly ["kind", "name", "ports", "defname", "params"]
    return .external ⟨name, ports, ← record.read (defname name) "defname",
      ← record.read (asOptionalList param) "params"⟩
  | kind => .error ⟨label, .unknownKind "module" kind⟩

/-- Reads a circuit from its interchange form. Names have to be identifiers and counts whole numbers; unknown
keys are refused, and the optional fields have defaults. -/
def circuit (value : Json) : Except Misfit Circuit := do
  let record ← asObject "circuit" (some value)
  record.allowOnly ["main", "modules"]
  return ⟨← record.read asName "main", ← record.read (asList module) "modules"⟩

end Decode

end CircuitNames
