import CircuitNames.Circuit.Basic
import CircuitNames.Json.Basic

namespace CircuitNames

namespace Interchange

/-- An object of some kind; a field without a value is left out. -/
def tagged (kind : String) (fields : List (String × Option Json)) : Json :=
  .object (("kind", .string kind) :: fields.filterMap fun (key, value) => value.map (key, ·))

def width (value : Option Number) : Option Json := value.map .number

def strings (values : List String) : Json := .array (values.map .string)

end Interchange

open Interchange (tagged)

def GroundType.toJson : GroundType → Json
  | uint width => tagged "uint" [("width", Interchange.width width)]
  | sint width => tagged "sint" [("width", Interchange.width width)]
  | analog width => tagged "analog" [("width", Interchange.width width)]
  | clock => tagged "clock" []
  | reset => tagged "reset" []
  | asyncReset => tagged "async_reset" []

namespace Expr

mutual

def toJson : Expr → Json
  | ref name => tagged "ref" [("name", some (.string name))]
  | subfield base name =>
    tagged "subfield" [("expr", some (toJson base)), ("name", some (.string name))]
  | uintLit value width =>
    tagged "uint_lit" [("value", some (.string value)), ("width", Interchange.width width)]
  | sintLit value width =>
    tagged "sint_lit" [("value", some (.string value)), ("width", Interchange.width width)]
  | prim op args consts =>
    tagged "prim" [("op", some (.string op)), ("args", some (.array (toJsonAll args))),
      ("consts", some (.array (consts.map .number)))]
  | mux cond whenTrue whenFalse =>
    tagged "mux" [("cond", some (toJson cond)), ("tval", some (toJson whenTrue)),
      ("fval", some (toJson whenFalse))]
  | validIf cond value =>
    tagged "validif" [("cond", some (toJson cond)), ("value", some (toJson value))]

def toJsonAll : List Expr → List Json
  | [] => []
  | expr :: rest => toJson expr :: toJsonAll rest

end

end Expr

def RegReset.toJson (reset : RegReset) : Json :=
  .object [("signal", reset.signal.toJson), ("init", reset.init.toJson)]

/-- How the outcome of a read under a write is called in the interchange form. -/
def ReadUnderWrite.name : ReadUnderWrite → String
  | old => "old"
  | new => "new"
  | undefined => "undefined"

namespace Stmt

/-- The tag of a statement in the interchange form. -/
def kindName : Stmt → String
  | wire .. => "wire"
  | reg .. => "reg"
  | node .. => "node"
  | inst .. => "inst"
  | mem _ => "mem"
  | connect .. => "connect"
  | invalidate _ => "invalidate"
  | when .. => "when"
  | block _ => "block"
  | stop .. => "stop"
  | print .. => "print"
  | skip => "skip"

/-- The fields of a memory that follow its tag. -/
def memFields (decl : MemDecl) : List (String × Option Json) :=
  [("name", some (.string decl.name)),
    ("dataType", some decl.dataType.toJson),
    ("depth", some (.number decl.depth)),
    ("readLatency", some (.number decl.readLatency)),
    ("writeLatency", some (.number decl.writeLatency)),
    ("readers", some (Interchange.strings decl.readers)),
    ("writers", some (Interchange.strings decl.writers)),
    ("readwriters", some (Interchange.strings decl.readwriters)),
    ("readUnderWrite", some (.string decl.readUnderWrite.name))]

mutual

def toJson : Stmt → Json
  | wire name type =>
    tagged "wire" [("name", some (.string name)), ("type", some type.toJson)]
  | reg name type clock reset =>
    tagged "reg" [("name", some (.string name)), ("type", some type.toJson),
      ("clock", some clock.toJson), ("reset", reset.map RegReset.toJson)]
  | node name value =>
    tagged "node" [("name", some (.string name)), ("value", some value.toJson)]
  | inst name module =>
    tagged "inst" [("name", some (.string name)), ("module", some (.string module))]
  | mem decl => tagged "mem" (memFields decl)
  | connect loc expr =>
    tagged "connect" [("loc", some loc.toJson), ("expr", some expr.toJson)]
  | invalidate expr => tagged "invalidate" [("expr", some expr.toJson)]
  | when cond body otherwise =>
    tagged "when" [("cond", some cond.toJson), ("then", some (.array (toJsonAll body))),
      ("else", some (.array (toJsonAll otherwise)))]
  | block body => tagged "block" [("stmts", some (.array (toJsonAll body)))]
  | stop clock en exitCode =>
    tagged "stop" [("clock", some clock.toJson), ("en", some en.toJson),
      ("exitCode", some (.number exitCode))]
  | print clock en format args =>
    tagged "print" [("clock", some clock.toJson), ("en", some en.toJson),
      ("format", some (.string format)), ("args", some (.array (args.map Expr.toJson)))]
  | skip => tagged "skip" []

def toJsonAll : List Stmt → List Json
  | [] => []
  | stmt :: rest => toJson stmt :: toJsonAll rest

end

end Stmt

def Direction.name : Direction → String
  | input => "input"
  | output => "output"

def Port.toJson (port : Port) : Json :=
  .object [("name", .string port.name), ("direction", .string port.direction.name),
    ("type", port.type.toJson)]

def ParamValue.toJson : ParamValue → Json
  | string value => .string value
  | number value => .number value

def Param.toJson (param : Param) : Json :=
  .object [("name", .string param.name), ("value", param.value.toJson)]

/-- A module with every field written out, also those that hold their defaults. -/
def Module.toJson : Module → Json
  | regular module =>
    tagged "module" [("name", some (.string module.name)),
      ("ports", some (.array (module.ports.map Port.toJson))),
      ("body", some (.array (Stmt.toJsonAll module.body)))]
  | external module =>
    tagged "extmodule" [("name", some (.string module.name)),
      ("ports", some (.array (module.ports.map Port.toJson))),
      ("defname", some (.string module.defname)),
      ("params", some (.array (module.params.map Param.toJson)))]

/-- The interchange form of a circuit: every field is written out except absent widths and resets, and the
keys stand in a fixed order. -/
def Circuit.toJson (circuit : Circuit) : Json :=
  .object [("main", .string circuit.main), ("modules", .array (circuit.modules.map Module.toJson))]

end CircuitNames
