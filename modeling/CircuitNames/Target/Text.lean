import CircuitNames.Target.Basic
import CircuitNames.Text.Identifier
import CircuitNames.Text.Pieces

namespace CircuitNames

namespace Hop

/-- A hop as it is written in a target, `/inst:Of`. -/
def chars (hop : Hop) : List Char := '/' :: hop.inst.toList ++ ':' :: hop.ofModule.toList

end Hop

namespace ModuleTarget

def chars (target : ModuleTarget) : List Char :=
  '~' :: target.circuit.toList ++ '|' :: target.module.toList

def text (target : ModuleTarget) : String := String.ofList target.chars

end ModuleTarget

namespace InstanceTarget

def chars (target : InstanceTarget) : List Char :=
  (ModuleTarget.mk target.circuit target.module).chars ++ target.path.flatMap Hop.chars ++
    (Hop.mk target.inst target.ofModule).chars

def text (target : InstanceTarget) : String := String.ofList target.chars

end InstanceTarget

namespace ReferenceTarget

/-- A reference as it is written, `~Circuit|Module/inst:Of>ref.field`. -/
def chars (target : ReferenceTarget) : List Char :=
  (ModuleTarget.mk target.circuit target.module).chars ++ target.path.flatMap Hop.chars ++
    '>' :: target.ref.toList ++ target.fields.flatMap fun field => '.' :: field.toList

def text (target : ReferenceTarget) : String := String.ofList target.chars

end ReferenceTarget

namespace Target

/-- A target as it is written. Two targets are the same address when their texts are equal. -/
def chars : Target → List Char
  | .circuit name => '~' :: name.toList
  | .module target => target.chars
  | .inst target => target.chars
  | .reference target => target.chars

/-- The text of a target, which is also the key it is found by. -/
def text (target : Target) : String := String.ofList target.chars

/-- What is wrong with a text that should name a target. -/
inductive Flaw where
  | noTilde
  | notIdentifier (name : String)
  | notHop (hop : String)
deriving DecidableEq, Repr

def Flaw.describe : Flaw → String
  | .noTilde => "expected a leading '~'."
  | .notIdentifier name => s!"'{name}' is not an identifier."
  | .notHop hop => s!"expected '<instance>:<module>' (got '{hop}')."

/-- Reads an identifier. -/
def readName (chars : List Char) : Except Flaw String :=
  let name := String.ofList chars
  if isIdentifier name then .ok name else .error (.notIdentifier name)

/-- Reads a hop: two identifiers with a colon between them. -/
def readHop (chars : List Char) : Except Flaw Hop :=
  match Pieces.split ':' chars with
  | [own, callee] => do return ⟨← readName own, ← readName callee⟩
  | _ => .error (.notHop (String.ofList chars))

/-- The module and the hops that lead from it. -/
def readHierarchy (chars : List Char) : Except Flaw (String × List Hop) :=
  match Pieces.split '/' chars with
  | [] => .error (.notIdentifier "")
  | home :: hops => do return (← readName home, ← hops.mapM readHop)

/-- The name of a reference and its fields. -/
def readReference (chars : List Char) : Except Flaw (String × List String) :=
  match Pieces.split '.' chars with
  | [] => .error (.notIdentifier "")
  | ref :: fields => do return (← readName ref, ← fields.mapM readName)

/-- A module with hops after it addresses the instance of the last hop. -/
def ofHierarchy (name home : String) (hops : List Hop) : Target :=
  match hops.getLast? with
  | none => .module ⟨name, home⟩
  | some last => .inst ⟨name, home, hops.dropLast, last.inst, last.ofModule⟩

/-- Reads a target from its text. -/
def readChars : List Char → Except Flaw Target
  | '~' :: body =>
    match Pieces.cut '|' body with
    | (name, none) => do return .circuit (← readName name)
    | (name, some rest) => do
      let name ← readName name
      let (hierarchy, selected) := Pieces.cut '>' rest
      let (home, hops) ← readHierarchy hierarchy
      match selected with
      | none => return ofHierarchy name home hops
      | some selected =>
        let (ref, fields) ← readReference selected
        return .reference ⟨name, home, hops, ref, fields⟩
  | _ => .error .noTilde

end Target

end CircuitNames
