import CircuitNames.Fault
import CircuitNames.Ledger.Basic
import CircuitNames.Text.Order

namespace CircuitNames

/-- Reads the text of a target. -/
def Target.parse (text : String) : Except Fault Target :=
  (readChars text.toList).mapError (.malformedTarget text)

namespace Ledger

/-- The keys with the texts of their replacements, in the order of the written form. -/
def pairs (ledger : Ledger) : List (String × List String) :=
  (ledger.entries.map fun entry => (entry.key, entry.replacements.map Target.text)).mergeSort
    fun entry other => Collation.le entry.1 other.1

/-- The written form: an object from the text of each source to the texts of its replacements. -/
def toJson (ledger : Ledger) : Json :=
  .object (ledger.pairs.map fun (key, texts) => (key, .array (texts.map .string)))

/-- The texts of an array of strings. -/
def texts? : Json → Option (List String)
  | .array items => items.mapM fun
    | .string text => some text
    | _ => none
  | _ => none

/-- Registers what one field of the written form says. A key without replacements is checked, but
leaves no entry. -/
def registerField (ledger : Ledger) (field : String × Json) : Except Fault Ledger := do
  let (key, value) := field
  match texts? value with
  | none => .error (.ledgerEntry key)
  | some texts =>
    let source ← Target.parse key
    texts.foldlM (fun ledger text => return ledger.register source (← Target.parse text)) ledger

/-- Reads a ledger from its written form. -/
def ofJson : Json → Except Fault Ledger
  | .object fields => fields.foldlM registerField empty
  | _ => .error .ledgerNotObject

end Ledger

end CircuitNames
