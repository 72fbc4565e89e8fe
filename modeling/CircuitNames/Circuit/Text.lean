import CircuitNames.Circuit.Interchange
import CircuitNames.Number.Decimal
import CircuitNames.Text.Quoted

namespace CircuitNames

namespace CircuitText

/-- A width in angle brackets, or nothing if there is none. -/
def angled (width : Option Number) : List Char :=
  match width with
  | none => []
  | some n => '<' :: n.chars ++ ['>']

def commaSeparated (parts : List (List Char)) : List Char := [',', ' '].intercalate parts

/-- A line at a level of indentation, two spaces a level. -/
structure Line where
  level : Nat
  content : String
deriving DecidableEq, Repr

def blankLine : Line := ⟨0, ""⟩

/-- A line is indented by two spaces a level. -/
def Line.text (line : Line) : String :=
  String.ofList (List.replicate (2 * line.level) ' ') ++ line.content

end CircuitText

open CircuitText

def GroundType.text : GroundType → String
  | uint width => "UInt" ++ String.ofList (angled width)
  | sint width => "SInt" ++ String.ofList (angled width)
  | analog width => "Analog" ++ String.ofList (angled width)
  | clock => "Clock"
  | reset => "Reset"
  | asyncReset => "AsyncReset"

namespace Expr

mutual

/-- An expression on one line, as characters. -/
def chars : Expr → List Char
  | ref name => name.toList
  | subfield base name => chars base ++ '.' :: name.toList
  | uintLit value width => "UInt".toList ++ angled width ++ '(' :: value.toList ++ [')']
  | sintLit value width => "SInt".toList ++ angled width ++ '(' :: value.toList ++ [')']
  | prim op args consts =>
    op.toList ++ '(' :: commaSeparated (charsAll args ++ consts.map Number.chars) ++ [')']
  | mux cond whenTrue whenFalse =>
    "mux(".toList ++ commaSeparated [chars cond, chars whenTrue, chars whenFalse] ++ [')']
  | validIf cond value => "validif(".toList ++ commaSeparated [chars cond, chars value] ++ [')']

def charsAll : List Expr → List (List Char)
  | [] => []
  | expr :: rest => chars expr :: charsAll rest

end

def text (expr : Expr) : String := String.ofList expr.chars

end Expr

namespace MemDecl

/-- The lines of a memory: its properties and ports stand one level below it. -/
def lines (level : Nat) (decl : MemDecl) : List Line :=
  let property (content : String) : Line := ⟨level + 1, content⟩
  ⟨level, s!"mem {decl.name} :"⟩ ::
    [property s!"data-type => {decl.dataType.text}",
      property s!"depth => {decl.depth.text}",
      property s!"read-latency => {decl.readLatency.text}",
      property s!"write-latency => {decl.writeLatency.text}"] ++
    decl.readers.map (fun port => property s!"reader => {port}") ++
    decl.writers.map (fun port => property s!"writer => {port}") ++
    decl.readwriters.map (fun port => property s!"readwriter => {port}") ++
    [property s!"read-under-write => {decl.readUnderWrite.name}"]

end MemDecl

namespace Stmt

/-- What follows the clock of a register that has a reset. -/
def resetText : Option RegReset → String
  | none => ""
  | some reset => s!" with : (reset => ({reset.signal.text}, {reset.init.text}))"

mutual

/-- A statement as indented lines; a body without statements is written as `skip`. -/
def lines (level : Nat) : Stmt → List Line
  | wire name type => [⟨level, s!"wire {name} : {type.text}"⟩]
  | reg name type clock reset =>
    [⟨level, s!"reg {name} : {type.text}, {clock.text}{resetText reset}"⟩]
  | node name value => [⟨level, s!"node {name} = {value.text}"⟩]
  | inst name module => [⟨level, s!"inst {name} of {module}"⟩]
  | mem decl => decl.lines level
  | connect loc expr => [⟨level, s!"{loc.text} <= {expr.text}"⟩]
  | invalidate expr => [⟨level, s!"{expr.text} is invalid"⟩]
  | when cond body otherwise =>
    ⟨level, s!"when {cond.text} :"⟩ :: linesAll (level + 1) body ++
      (if body.isEmpty then [⟨level + 1, "skip"⟩] else []) ++
      (if otherwise.isEmpty then [] else ⟨level, "else :"⟩ :: linesAll (level + 1) otherwise)
  | block body => linesAll level body
  | stop clock en exitCode => [⟨level, s!"stop({clock.text}, {en.text}, {exitCode.text})"⟩]
  | print clock en format args =>
    let parts := [clock.text, en.text, quoted format] ++ args.map Expr.text
    [⟨level, "printf(" ++ ", ".intercalate parts ++ ")"⟩]
  | skip => [⟨level, "skip"⟩]

def linesAll (level : Nat) : List Stmt → List Line
  | [] => []
  | stmt :: rest => lines level stmt ++ linesAll level rest

end

end Stmt

def Port.line (level : Nat) (port : Port) : Line :=
  ⟨level, s!"{port.direction.name} {port.name} : {port.type.text}"⟩

def ParamValue.text : ParamValue → String
  | string value => quoted value
  | number value => value.text

/-- An external module: its ports, the name it is defined under, and its parameters. -/
def ExternalModule.lines (level : Nat) (module : ExternalModule) : List Line :=
  ⟨level, s!"extmodule {module.name} :"⟩ :: module.ports.map (Port.line (level + 1)) ++
    ⟨level + 1, s!"defname = {module.defname}"⟩ ::
    module.params.map fun param =>
      ⟨level + 1, s!"parameter {param.name} = {param.value.text}"⟩

/-- A blank line parts the ports from the body; a module with neither holds a `skip`. -/
def RegularModule.lines (level : Nat) (module : RegularModule) : List Line :=
  let parted := !module.ports.isEmpty && !module.body.isEmpty
  let empty := module.ports.isEmpty && module.body.isEmpty
  ⟨level, s!"module {module.name} :"⟩ :: module.ports.map (Port.line (level + 1)) ++
    (if parted then [blankLine] else []) ++
    Stmt.linesAll (level + 1) module.body ++
    (if empty then [⟨level + 1, "skip"⟩] else [])

def Module.lines (level : Nat) : Module → List Line
  | regular module => module.lines level
  | external module => module.lines level

namespace Circuit

/-- The lines below the first one, with a blank line between two modules. -/
def bodyLines : List Module → List Line
  | [] => []
  | [last] => last.lines 1
  | module :: rest => module.lines 1 ++ blankLine :: bodyLines rest

def lines (circuit : Circuit) : List Line :=
  ⟨0, s!"circuit {circuit.main} :"⟩ :: bodyLines circuit.modules

/-- The text of a circuit under a header of lines; a line break ends the last line. -/
def text (circuit : Circuit) (header : List String) : String :=
  "\n".intercalate (header ++ circuit.lines.map Line.text ++ [""])

end Circuit

end CircuitNames
