import CircuitNames.Circuit.Decode
import CircuitNames.Circuit.Text
import CircuitNames.Command.Arguments
import CircuitNames.Command.FileTree
import CircuitNames.Config
import CircuitNames.Json.Printer
import CircuitNames.Json.Reader
import CircuitNames.Text.Blank

namespace CircuitNames

/-- What a command works on: the files, and the lines it has logged. -/
structure Session where
  files : FileTree
  log : List String
deriving DecidableEq, Repr

/-- A task may fail; what it wrote and logged before that stays. -/
abbrev Task := ExceptT Fault (StateM Session)

namespace Task

/-- A task that only has a result. -/
def ofExcept {α : Type} (result : Except Fault α) : Task α := ExceptT.mk (pure result)

def log (line : String) : Task Unit :=
  modify fun session => { session with log := session.log ++ [line] }

def readFile (path : Path) : Task String := do
  ofExcept (((← get).files.read path).mapError .file)

/-- The value that the text of a file denotes. -/
def readJson (path : Path) : Task Json := do
  match Json.read? (← readFile path) with
  | some value => return value
  | none => throw .notJson

/-- Writes a file. When this fails the files stay as they are. -/
def writeFile (path : Path) (text : String) : Task Unit := do
  let files ← ofExcept (((← get).files.write path text).mapError .file)
  modify fun session => { session with files }

end Task

/-- What a run leaves: the circuit, the shared ledger, and the circuit as it was written. -/
structure Report where
  circuit : Circuit
  ledger : Ledger
  output : String

namespace RenameCommand

/-- The nearest configuration file at a directory or above it. -/
def nearestConfig? (files : FileTree) (dir : Path) : Option Path :=
  (dir.upward.map (·.step configFileName)).find? fun path => (files.find? path).isSome

/-- The configuration asked for, otherwise the nearest one, otherwise the standard one. -/
def config (dir : Path) (asked : Option Path) : Task Config := do
  let files := (← get).files
  match asked <|> nearestConfig? files dir with
  | some path => Task.ofExcept (Config.ofJson (← Task.readJson path))
  | none => return .standard

/-- The ledger to continue, empty if none is given. -/
def startLedger : Option Path → Task Ledger
  | some path => do Task.ofExcept (Ledger.ofJson (← Task.readJson path))
  | none => return .empty

def decodeCircuit (value : Json) : Except Fault Circuit :=
  (Decode.circuit value).mapError .malformedCircuit

/-- Runs the passes in order, and logs after each how many names it changed. -/
def runPasses : List PassConfig → Circuit → Ledger → Task (Circuit × Ledger)
  | [], circuit, ledger => return (circuit, ledger)
  | pass :: rest, circuit, ledger => do
    let step ← Task.ofExcept ((Pass.ofSpec pass.spec).step circuit ledger pass.skips)
    let count := step.own.size
    let noun := if count = 1 then "rename" else "renames"
    Task.log s!"{pass.spec.passName}: {count} {noun}"
    runPasses rest step.circuit step.shared

/-- The result in the format that was asked for. -/
def render (circuit : Circuit) : Emit → String
  | .json => circuit.toJson.fileText
  | .text => circuit.text []

/-- Reads everything, runs the passes, and writes last of all: the circuit goes to its file, or to the
log without one, and the ledger goes to its file if it has one. -/
def run (dir : Path) (argv : List String) : Task Report := do
  let arguments ← Task.ofExcept ((Arguments.read dir argv).mapError .arguments)
  let config ← config dir arguments.config
  let ledger ← startLedger arguments.renamesIn
  let circuit ← Task.ofExcept (decodeCircuit (← Task.readJson arguments.input))
  let (circuit, ledger) ← runPasses config.passes circuit ledger
  let output := render circuit arguments.emit
  match arguments.out with
  | some path => Task.writeFile path output
  | none => Task.log (trimmedEnd output)
  match arguments.renames with
  | some path => Task.writeFile path ledger.toJson.fileText
  | none => pure ()
  return ⟨circuit, ledger, output⟩

end RenameCommand

end CircuitNames
