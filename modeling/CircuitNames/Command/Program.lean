import CircuitNames.Command.Rename

namespace CircuitNames

/-- The commands of the program. -/
inductive Command where
  | rename
  | rules
  | help
deriving DecidableEq, Repr

namespace Command

def name : Command → String
  | rename => "rename"
  | rules => "rules"
  | help => "help"

/-- The command of the first argument. Whatever is not a command asks for help. -/
def ofArguments : List String → Command
  | "rename" :: _ => rename
  | "rules" :: _ => rules
  | _ => help

/-- What is printed where no command is given, or help is asked for. -/
def usage : String := "\n".intercalate [
  "circuit-renamer",
  "",
  "Usage:",
  "  circuit-renamer rename <circuit.json> [--config <file>] [--out <file>]",
  "                         [--renames <file>] [--renames-in <file>] [--emit json|text]",
  "  circuit-renamer rules",
  ""]

/-- How the program ends: the complaint, if there is one, and the exit status. -/
structure Ending where
  complaint : Option String
  status : Nat
deriving DecidableEq, Repr

/-- Runs the program in a directory. The lines it logs are its output. Help that was not asked for is
a failure. -/
def run (dir : Path) (argv : List String) (files : FileTree) : Ending × Session :=
  match ofArguments argv with
  | rename =>
    match (RenameCommand.run dir argv.tail).run.run ⟨files, []⟩ with
    | (.ok _, session) => (⟨none, 0⟩, session)
    | (.error fault, session) => (⟨some fault.report, 1⟩, session)
  | rules => (⟨none, 0⟩, ⟨files, RuleSpec.names⟩)
  | help =>
    let asked := argv.head?.all (· == "help")
    (⟨none, if asked then 0 else 1⟩, ⟨files, [usage]⟩)

/-- The paths that a run with these arguments may look at. -/
def consulted (dir : Path) : List String → List Path
  | "rename" :: argv =>
    match Arguments.read dir argv with
    | .error _ => []
    | .ok arguments =>
      let configs := match arguments.config with
        | some path => [path]
        | none => dir.upward.map (·.step configFileName)
      arguments.input :: configs ++ arguments.renamesIn.toList ++ arguments.out.toList ++
        arguments.renames.toList
  | _ => []

end Command

end CircuitNames
