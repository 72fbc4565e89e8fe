import CircuitNames.Json.Form
import CircuitNames.Target.Text

namespace CircuitNames

/-- The codes of the diagnostics. -/
inductive Code where
  | malformedTarget
  | notLocal
  | belowField
  | unboundBase
  | notSelectable
  | undeclaredModule
  | instanceCycle
  | noMainModule
  | kindChange
  | duplicateModule
  | leftOutModule
  | malformedCircuit
  | malformedLedger
deriving DecidableEq, Repr

namespace Code

/-- All codes, in the order of their numbers. -/
def all : List Code :=
  [malformedTarget, notLocal, belowField, unboundBase, notSelectable, undeclaredModule, instanceCycle,
    noMainModule, kindChange, duplicateModule, leftOutModule, malformedCircuit, malformedLedger]

def name : Code → String
  | malformedTarget => "CRN1001"
  | notLocal => "CRN1002"
  | belowField => "CRN1003"
  | unboundBase => "CRN2001"
  | notSelectable => "CRN2002"
  | undeclaredModule => "CRN2003"
  | instanceCycle => "CRN2004"
  | noMainModule => "CRN2005"
  | kindChange => "CRN2006"
  | duplicateModule => "CRN2007"
  | leftOutModule => "CRN2008"
  | malformedCircuit => "CRN3001"
  | malformedLedger => "CRN3002"

def ofName? (name : String) : Option Code := all.find? (·.name == name)

/-- One line for the user: the code and the message. -/
def report (code : Code) (message : String) : String := s!"{code.name}: {message}"

end Code

/-- What a diagnostic complains of: the addresses in a configuration, a broken assumption about the
circuit, or the form of an input file. -/
inductive Domain where
  | config
  | invariant
  | decode
deriving DecidableEq, Repr

namespace Domain

def name : Domain → String
  | config => "config"
  | invariant => "invariant"
  | decode => "decode"

/-- The class under which the diagnostics of a domain are reported. -/
def className : Domain → String
  | config => "InvalidAddressError"
  | invariant => "InternalError"
  | decode => "CompileError"

end Domain

/-- The domain that a code belongs to. -/
def Code.domain : Code → Domain
  | .malformedTarget | .notLocal | .belowField => .config
  | .malformedCircuit | .malformedLedger => .decode
  | _ => .invariant

/-- The name of the domain that a code belongs to; a code that is not registered has another one. -/
def Domain.nameOfCode (code : String) : String :=
  match Code.ofName? code with
  | some known => known.domain.name
  | none => "other"

/-- What is wrong with the arguments of the rename command. -/
inductive ArgumentFault where
  | missingValue (flag : String)
  | badFormat (got : String)
  | usage
  | unknownFlag (flag : String)
  | extraInput (input : String)
  | missingInput
deriving DecidableEq, Repr

def ArgumentFault.message : ArgumentFault → String
  | .missingValue flag => s!"rename: {flag} requires a value"
  | .badFormat got => s!"rename: --emit must be 'json' or 'text' (got '{got}')"
  | .usage =>
    "Usage: circuit-renamer rename <circuit.json> [--config <file>] [--out <file>] " ++
      "[--renames <file>] [--renames-in <file>] [--emit json|text]"
  | .unknownFlag flag => s!"rename: unknown arg: {flag}"
  | .extraInput input => s!"rename: unexpected extra input: {input}"
  | .missingInput => "rename: missing required <circuit.json>"

/-- What is wrong with a configuration. -/
inductive ConfigFault where
  | form (misfit : Json.Misfit)
  | unsupportedSchema
  | noPasses
deriving DecidableEq, Repr

/-- Where a configuration is looked for when none is named. -/
def configFileName : String := "circuit-renamer.json"

def ConfigFault.message : ConfigFault → String
  | .form misfit => misfit.message
  | .unsupportedSchema => s!"Unsupported {configFileName} schema."
  | .noPasses => s!"{configFileName}: 'passes' must be a non-empty array."

/-- Why a file cannot be read or written. -/
inductive FileFault where
  | noEntry
  | isDirectory
  | notDirectory
deriving DecidableEq, Repr

/-- Everything that can go wrong, by its cause. -/
inductive Fault where
  | malformedTarget (text : String) (flaw : Target.Flaw)
  | skipNotLocal (target : Target)
  | skipBelowField (target : Target)
  | unboundBase (base : ReferenceTarget)
  | selectionTooDeep (port field home : String)
  | selectionBelowPort (root port field home : String)
  | selectionFromOther (field home : String)
  | undeclaredModule (inst home callee : String)
  | instanceCycle (circuit : String) (cycle : List String)
  | noMainModule (circuit : String)
  | ledgerChangesKind (source replacement : Target)
  | renameChangesKind (source replacement : Target)
  | duplicateModule (circuit module : String)
  | leftOutModule (circuit module : String)
  | malformedCircuit (misfit : Json.Misfit)
  | ledgerNotObject
  | ledgerEntry (key : String)
  | unknownCode (code : String)
  | config (fault : ConfigFault)
  | arguments (fault : ArgumentFault)
  | file (fault : FileFault)
  | notJson
deriving DecidableEq, Repr

namespace Fault

/-- The code of a diagnostic; the other faults have none. -/
def code? : Fault → Option Code
  | malformedTarget .. => some .malformedTarget
  | skipNotLocal _ => some .notLocal
  | skipBelowField _ => some .belowField
  | unboundBase _ => some .unboundBase
  | selectionTooDeep .. | selectionBelowPort .. | selectionFromOther .. => some .notSelectable
  | undeclaredModule .. => some .undeclaredModule
  | instanceCycle .. => some .instanceCycle
  | noMainModule _ => some .noMainModule
  | ledgerChangesKind .. | renameChangesKind .. => some .kindChange
  | duplicateModule .. => some .duplicateModule
  | leftOutModule .. => some .leftOutModule
  | malformedCircuit _ => some .malformedCircuit
  | ledgerNotObject | ledgerEntry _ => some .malformedLedger
  | unknownCode _ | config _ | arguments _ | file _ | notJson => none

/-- How each cause is worded. The texts that it quotes stand as they were given. -/
def message : Fault → String
  | malformedTarget text flaw => s!"Malformed target {quoted text}: {flaw.describe}"
  | skipNotLocal target =>
    s!"Cannot skip non-local target {target.text}: " ++
      "only names declared directly in a module can be renamed."
  | skipBelowField target =>
    s!"Cannot skip {target.text}: memory port sub-fields are never renamed."
  | unboundBase base =>
    s!"Subfield base {base.text} is neither an instance nor a memory declared in its module."
  | selectionTooDeep port field home =>
    s!"Unsupported subfield '.{port}.{field}' in module '{home}': nesting is too deep."
  | selectionBelowPort root port field home =>
    s!"Expression {root}.{port}.{field} in module '{home}' reaches below an instance port."
  | selectionFromOther field home =>
    s!"Unsupported subfield '.{field}' in module '{home}': " ++
      "only instance ports and memory ports can be selected."
  | undeclaredModule inst home callee =>
    s!"Instance '{inst}' in module '{home}' refers to undeclared module '{callee}'."
  | instanceCycle circuit cycle =>
    s!"Instance cycle in circuit '{circuit}': " ++ " -> ".intercalate cycle
  | noMainModule circuit => s!"Circuit '{circuit}' has no module named '{circuit}'."
  | ledgerChangesKind source replacement =>
    s!"Ledger maps {source.text} to {replacement.text}, " ++
      "which does not end in a renamable component of the same kind."
  | renameChangesKind source replacement =>
    s!"Rename of {source.text} to {replacement.text} changes the kind of target."
  | duplicateModule circuit module =>
    s!"Circuit '{circuit}' declares module '{module}' more than once."
  | leftOutModule circuit module =>
    s!"Module order for circuit '{circuit}' left out module '{module}'."
  | malformedCircuit misfit => misfit.message
  | ledgerNotObject => "Rename ledger JSON must be an object of target to target list."
  | ledgerEntry key => s!"Rename ledger entry '{key}' must be an array of target strings."
  | unknownCode code => s!"Unknown compiler diagnostic code: {code}"
  | config fault => fault.message
  | arguments fault => fault.message
  | file .noEntry => "ENOENT: no such file or directory"
  | file .isDirectory => "EISDIR: illegal operation on a directory"
  | file .notDirectory => "ENOTDIR: not a directory"
  | notJson => "Unexpected token in JSON"

/-- One line for the user: the code, where there is one, and the message. -/
def report (fault : Fault) : String :=
  match fault.code? with
  | some code => code.report fault.message
  | none => fault.message

/-- The registered code of a name. -/
def registered (name : String) : Except Fault Code :=
  match Code.ofName? name with
  | some code => .ok code
  | none => .error (.unknownCode name)

end Fault

end CircuitNames
