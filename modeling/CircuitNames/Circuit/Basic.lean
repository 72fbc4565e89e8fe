import CircuitNames.Number.Basic

namespace CircuitNames

/-- The type of a port or a signal. A width that is not given is inferred elsewhere. -/
inductive GroundType where
  | uint (width : Option Number)
  | sint (width : Option Number)
  | analog (width : Option Number)
  | clock
  | reset
  | asyncReset
deriving DecidableEq

/-- Expressions. A subfield is a port selected from an instance or a memory, or a signal selected from a port
of a memory. -/
inductive Expr where
  | ref (name : String)
  | subfield (base : Expr) (name : String)
  | uintLit (value : String) (width : Option Number)
  | sintLit (value : String) (width : Option Number)
  | prim (op : String) (args : List Expr) (consts : List Number)
  | mux (cond whenTrue whenFalse : Expr)
  | validIf (cond value : Expr)

instance : Inhabited Expr := ⟨.ref ""⟩

/-- The reset of a register: the signal that triggers it and the value it sets. -/
structure RegReset where
  signal : Expr
  init : Expr

/-- What a memory port reads when its word is written in the same cycle. -/
inductive ReadUnderWrite where
  | old
  | new
  | undefined
deriving DecidableEq

/-- A memory, with its ports by what they can do. -/
structure MemDecl where
  name : String
  dataType : GroundType
  depth : Number
  readLatency : Number
  writeLatency : Number
  readers : List String
  writers : List String
  readwriters : List String
  readUnderWrite : ReadUnderWrite
deriving DecidableEq

/-- Statements. A declaration can stand at any depth, and its name counts for the whole module. -/
inductive Stmt where
  | wire (name : String) (type : GroundType)
  | reg (name : String) (type : GroundType) (clock : Expr) (reset : Option RegReset)
  | node (name : String) (value : Expr)
  | inst (name : String) (module : String)
  | mem (decl : MemDecl)
  | connect (loc : Expr) (expr : Expr)
  | invalidate (expr : Expr)
  | when (cond : Expr) (body otherwise : List Stmt)
  | block (body : List Stmt)
  | stop (clock en : Expr) (exitCode : Number)
  | print (clock en : Expr) (format : String) (args : List Expr)
  | skip

instance : Inhabited Stmt := ⟨.skip⟩

inductive Direction where
  | input
  | output
deriving DecidableEq

/-- A port of a module. -/
structure Port where
  name : String
  direction : Direction
  type : GroundType
deriving DecidableEq

/-- The value of a parameter of an external module. -/
inductive ParamValue where
  | string (value : String)
  | number (value : Number)
deriving DecidableEq

structure Param where
  name : String
  value : ParamValue
deriving DecidableEq

/-- A module that is given by its ports and its statements. Names are plain strings here: what is no
identifier is refused where a circuit is read. -/
structure RegularModule where
  name : String
  ports : List Port
  body : List Stmt

/-- A module defined elsewhere: only its own name is free to change. -/
structure ExternalModule where
  name : String
  ports : List Port
  defname : String
  params : List Param
deriving DecidableEq

/-- A module of a circuit, given in full or by its interface alone. -/
inductive Module where
  | regular (module : RegularModule)
  | external (module : ExternalModule)

def Module.name : Module → String
  | .regular module => module.name
  | .external module => module.name

/-- A circuit, with the name of its main module, which is the name of the circuit as well. -/
structure Circuit where
  main : String
  modules : List Module

namespace MemDecl

/-- All port names: readers, then writers, then the ports that do both. -/
def portNames (decl : MemDecl) : List String := decl.readers ++ decl.writers ++ decl.readwriters

end MemDecl

namespace Stmt

/-- The name a statement declares. -/
def declaredName? : Stmt → Option String
  | wire name _ | reg name .. | node name _ | inst name _ => some name
  | mem decl => some decl.name
  | _ => none

def isDecl (stmt : Stmt) : Bool := stmt.declaredName?.isSome

mutual

/-- The statement and all statements nested in it, each before those it holds. -/
def walk : Stmt → List Stmt
  | stmt@(when _ body otherwise) => stmt :: (walkAll body ++ walkAll otherwise)
  | stmt@(block body) => stmt :: walkAll body
  | stmt => [stmt]

/-- The statements of a list, each followed by those nested in it. -/
def walkAll : List Stmt → List Stmt
  | [] => []
  | stmt :: rest => walk stmt ++ walkAll rest

end

end Stmt

namespace RegularModule

/-- Port names, then every declared name of the body in the order of the statements. -/
def declaredNames (module : RegularModule) : List String :=
  module.ports.map Port.name ++ (Stmt.walkAll module.body).filterMap Stmt.declaredName?

end RegularModule

end CircuitNames
