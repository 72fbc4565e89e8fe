import CircuitNames.Json.Basic
import CircuitNames.Text.Identifier
import CircuitNames.Text.Quoted

namespace CircuitNames

namespace Json

/-- What can be wrong with a value that is expected to be something. -/
inductive Flaw where
  | notObject
  | unknownKey (key : String)
  | notText
  | notString
  | notCount
  | notArray
  | notTexts
  | notIdentifier (name : String)
  | notInteger (text : String)
  | unknownKind (sort kind : String)
  | notOneOf (allowed : List String) (got : String)
  | notReadUnderWrite
  | notDirection
  | notParameter
deriving DecidableEq, Repr

/-- What is said of the labelled place. -/
def Flaw.describe : Flaw → String
  | .notObject => " must be a JSON object."
  | .unknownKey key => s!": unknown key '{key}'."
  | .notText => " must be a non-empty string."
  | .notString => " must be a string."
  | .notCount => " must be a non-negative integer."
  | .notArray => " must be an array."
  | .notTexts => " must be an array of non-empty strings."
  | .notIdentifier name => s!" must be an identifier (got {quoted name})."
  | .notInteger text => s!" must be a decimal integer string (got {quoted text})."
  | .unknownKind sort kind => s!": unknown {sort} kind '{kind}'."
  | .notOneOf allowed got =>
    let names := ", ".intercalate (allowed.map fun name => s!"'{name}'")
    s!" must be one of {names} (got '{got}')."
  | .notReadUnderWrite => " must be 'old', 'new' or 'undefined'."
  | .notDirection => " must be 'input' or 'output'."
  | .notParameter => " must be a string or a number."

/-- A place that does not have the form expected of it. -/
structure Misfit where
  label : String
  flaw : Flaw
deriving DecidableEq, Repr

def Misfit.message (misfit : Misfit) : String := misfit.label ++ misfit.flaw.describe

/-- A JSON object at a labelled place. -/
structure Record where
  label : String
  fields : List (String × Json)

namespace Record

/-- The value of a field; a field that is not there has none. -/
def get? (record : Record) (key : String) : Option Json := record.fields.lookup key

/-- The label of a field: that of its object with the key after it, such as `circuit.modules[0].name`. -/
def labelOf (record : Record) (key : String) : String := s!"{record.label}.{key}"

/-- Complains of the first field that is none of those allowed. -/
def allowOnly (record : Record) (allowed : List String) : Except Misfit Unit :=
  match record.fields.find? fun (key, _) => !allowed.contains key with
  | some (key, _) => .error ⟨record.label, .unknownKey key⟩
  | none => .ok ()

/-- Reads the value of a field under the label of the field. -/
def read {α : Type} (record : Record) (form : String → Option Json → Except Misfit α) (key : String) :
    Except Misfit α :=
  form (record.labelOf key) (record.get? key)

/-- A field is smaller than the object that holds it, so reading may go on inside it. -/
theorem sizeOf_get?_lt (record : Record) (key : String) :
    sizeOf (record.get? key) < sizeOf (some (Json.object record.fields)) := by
  obtain ⟨label, fields⟩ := record
  have bound : sizeOf (List.lookup key fields) ≤ 1 + sizeOf fields := by
    induction fields with
    | nil => simp
    | cons field rest ih =>
      obtain ⟨name, value⟩ := field
      simp only [List.lookup_cons]
      split
      · simp; omega
      · simp only [List.cons.sizeOf_spec]; omega
  simp only [get?, Option.some.sizeOf_spec, Json.object.sizeOf_spec]
  omega

end Record

/-- A value that has to be an object. -/
def asObject (label : String) : Option Json → Except Misfit Record
  | some (.object fields) => .ok ⟨label, fields⟩
  | _ => .error ⟨label, .notObject⟩

/-- A text that has to say something. -/
def asText (label : String) : Option Json → Except Misfit String
  | some (.string text) => if text.isEmpty then .error ⟨label, .notText⟩ else .ok text
  | _ => .error ⟨label, .notText⟩

def asString (label : String) : Option Json → Except Misfit String
  | some (.string text) => .ok text
  | _ => .error ⟨label, .notString⟩

/-- A number that has to count something. -/
def asCount (label : String) : Option Json → Except Misfit Number
  | some (.number n) => if n.isCount then .ok n else .error ⟨label, .notCount⟩
  | _ => .error ⟨label, .notCount⟩

/-- A text that has to be an identifier. -/
def asName (label : String) (value : Option Json) : Except Misfit String := do
  let name ← asText label value
  if isIdentifier name then return name else .error ⟨label, .notIdentifier name⟩

/-- Reads each item of a list under the label of its position, from `position` on. -/
def eachItem {α : Type} (form : String → Option Json → Except Misfit α) (label : String) :
    Nat → List Json → Except Misfit (List α)
  | _, [] => .ok []
  | position, item :: rest => do
    let first ← form s!"{label}[{position}]" (some item)
    return first :: (← eachItem form label (position + 1) rest)

/-- Reads an array item by item. -/
def asList {α : Type} (form : String → Option Json → Except Misfit α) (label : String) :
    Option Json → Except Misfit (List α)
  | some (.array items) => eachItem form label 0 items
  | _ => .error ⟨label, .notArray⟩

/-- A list that is empty when it is left out. -/
def asOptionalList {α : Type} (form : String → Option Json → Except Misfit α) (label : String) :
    Option Json → Except Misfit (List α)
  | none => .ok []
  | value => asList form label value

/-- An array of non-empty strings, with one complaint for the whole. -/
def asTexts (label : String) : Option Json → Except Misfit (List String)
  | some (.array items) =>
    let text? : Json → Option String
      | .string text => if text.isEmpty then none else some text
      | _ => none
    match items.mapM text? with
    | some texts => .ok texts
    | none => .error ⟨label, .notTexts⟩
  | _ => .error ⟨label, .notTexts⟩

end Json

end CircuitNames
