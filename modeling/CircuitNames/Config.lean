import CircuitNames.Rename.Pass

namespace CircuitNames

/-- A pass to run: its rule, and the targets it skips. -/
structure PassConfig where
  spec : RuleSpec
  skips : SkipSet
deriving DecidableEq, Repr

/-- The passes of a run, in their order. -/
structure Config where
  passes : List PassConfig
deriving DecidableEq, Repr

namespace Config

/-- Without a configuration the reserved words of Verilog are avoided. -/
def standard : Config := ⟨[⟨.verilogKeywords, .empty⟩]⟩

open Json (Misfit Record asObject asText asTexts)

/-- The rule of a pass with the data that belongs to it, and no other keys but `skip`. -/
def readSpec (record : Record) : Except Misfit RuleSpec := do
  let plain (spec : RuleSpec) : Except Misfit RuleSpec := do
    record.allowOnly ["rule", "skip"]
    return spec
  match ← record.read asText "rule" with
  | "keywords" =>
    record.allowOnly ["rule", "skip", "keywords"]
    return .keywords (← record.read asTexts "keywords")
  | "prefix" =>
    record.allowOnly ["rule", "skip", "prefix"]
    return .prepend (← record.read asText "prefix")
  | "verilog-keywords" => plain .verilogKeywords
  | "lower-case" => plain .lowerCase
  | "upper-case" => plain .upperCase
  | rule => .error ⟨record.labelOf "rule", .notOneOf RuleSpec.names rule⟩

def ofMisfit (misfit : Misfit) : Fault := .config (.form misfit)

/-- The targets to skip; without the key nothing is skipped. -/
def readSkips (record : Record) : Except Fault SkipSet :=
  match record.get? "skip" with
  | none => .ok .empty
  | value => do SkipSet.parse (← (asTexts (record.labelOf "skip") value).mapError ofMisfit)

def readPass (position : Nat) (value : Json) : Except Fault PassConfig := do
  let label := s!"{configFileName}: 'passes[{position}]'"
  let record ← (asObject label (some value)).mapError ofMisfit
  return ⟨← (readSpec record).mapError ofMisfit, ← readSkips record⟩

def readPasses (position : Nat) : List Json → Except Fault (List PassConfig)
  | [] => .ok []
  | value :: rest => do
    let first ← readPass position value
    return first :: (← readPasses (position + 1) rest)

/-- Reads a configuration: the one schema that is known, and at least one pass. -/
def ofJson (value : Json) : Except Fault Config := do
  let record ← (asObject configFileName (some value)).mapError ofMisfit
  (record.allowOnly ["schema", "passes"]).mapError ofMisfit
  match record.get? "schema" with
  | some (.number version) =>
    if version ≠ 1 then .error (.config .unsupportedSchema)
  | _ => .error (.config .unsupportedSchema)
  match record.get? "passes" with
  | some (.array (first :: rest)) => return ⟨← readPasses 0 (first :: rest)⟩
  | _ => .error (.config .noPasses)

end Config

end CircuitNames
