import CircuitNames.Command.Path
import CircuitNames.Fault

namespace CircuitNames

/-- The formats in which the result is written. -/
inductive Emit where
  | json
  | text
deriving DecidableEq, Repr

def Emit.name : Emit → String
  | json => "json"
  | text => "text"

/-- The options and the input as far as they are known. -/
structure Options where
  input : Option Path
  config : Option Path
  out : Option Path
  renames : Option Path
  renamesIn : Option Path
  emit : Emit
deriving DecidableEq, Repr

/-- The arguments of a run; the input is there. -/
structure Arguments where
  input : Path
  config : Option Path
  out : Option Path
  renames : Option Path
  renamesIn : Option Path
  emit : Emit
deriving DecidableEq, Repr

namespace Arguments

/-- The options, which each take a value. -/
inductive Flag where
  | config
  | out
  | renames
  | renamesIn
  | emit
deriving DecidableEq, Repr

def Flag.ofText? : String → Option Flag
  | "--config" => some .config
  | "--out" => some .out
  | "--renames" => some .renames
  | "--renames-in" => some .renamesIn
  | "--emit" => some .emit
  | _ => none

/-- Gives an option its value. -/
def setFlag (dir : Path) (options : Options) (value : String) : Flag → Except ArgumentFault Options
  | .config => .ok { options with config := some (dir.resolve value) }
  | .out => .ok { options with out := some (dir.resolve value) }
  | .renames => .ok { options with renames := some (dir.resolve value) }
  | .renamesIn => .ok { options with renamesIn := some (dir.resolve value) }
  | .emit =>
    match value with
    | "json" => .ok { options with emit := .json }
    | "text" => .ok { options with emit := .text }
    | _ => .error (.badFormat value)

/-- An argument that is no option: help, or the one input. -/
def setInput (dir : Path) (options : Options) (argument : String) : Except ArgumentFault Options :=
  if argument = "--help" ∨ argument = "-h" then .error .usage
  else if argument.toList.head? = some '-' then .error (.unknownFlag argument)
  else if options.input.isSome then .error (.extraInput argument)
  else .ok { options with input := some (dir.resolve argument) }

/-- Reads the arguments from left to right. The last value of an option counts. -/
def readOptions (dir : Path) (options : Options) : List String → Except ArgumentFault Options
  | [] => .ok options
  | [last] =>
    match Flag.ofText? last with
    | some _ => .error (.missingValue last)
    | none => setInput dir options last
  | argument :: next :: rest =>
    match Flag.ofText? argument with
    | some flag => do readOptions dir (← setFlag dir options next flag) rest
    | none => do readOptions dir (← setInput dir options argument) (next :: rest)

/-- What holds before any argument is read. -/
def noOptions : Options := ⟨none, none, none, none, none, .json⟩

/-- Reads arguments, with paths relative to a directory. -/
def read (dir : Path) (argv : List String) : Except ArgumentFault Arguments := do
  let options ← readOptions dir noOptions argv
  match options.input with
  | none => .error .missingInput
  | some input =>
    return { options with input }

end Arguments

end CircuitNames
