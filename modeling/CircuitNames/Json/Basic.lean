import CircuitNames.Number.Basic

namespace CircuitNames

/-- JSON values. The fields of an object are in an order that later shows in messages and files. -/
inductive Json where
  | null
  | bool (value : Bool)
  | number (value : Number)
  | string (value : String)
  | array (items : List Json)
  | object (fields : List (String × Json))

namespace Json

instance : Inhabited Json := ⟨null⟩

/-- The number of a key that is written like a position in a list: plain digits without leading
zeros, below the largest 32-bit number. -/
def listPosition? (key : String) : Option Nat :=
  let position := Nat.ofDigitChars 10 key.toList 0
  if key.length ≤ 10 ∧ Nat.toDigits 10 position = key.toList ∧ position < 4294967295 then
    some position
  else none

/-- Puts a field into an object; a key that is there keeps its place and takes the new value. -/
def setField (key : String) (value : Json) : List (String × Json) → List (String × Json)
  | [] => [(key, value)]
  | (present, old) :: rest =>
    if present = key then (key, value) :: rest else (present, old) :: setField key value rest

/-- The object that a list of written fields denotes: keys that number positions come first and in
numeric order, the others in the order of their first appearance. -/
def ofFields (written : List (String × Json)) : Json :=
  let fields := written.foldl (fun done (key, value) => setField key value done) []
  let (numbered, named) := fields.partition fun (key, _) => (listPosition? key).isSome
  let byPosition := numbered.mergeSort fun (k, _) (l, _) =>
    (listPosition? k).getD 0 ≤ (listPosition? l).getD 0
  .object (byPosition ++ named)

end Json

end CircuitNames
