import CircuitNames.Text.CaseTable

namespace CircuitNames

namespace Casing

/-- The character that another one maps to; most characters map to themselves. -/
def shifted (runs : List Run) (c : Char) : Char :=
  match runs.find? (·.covers c.toNat) with
  | some run => Char.ofNat (c.toNat + run.shift).toNat
  | none => c

def within (ranges : List (Nat × Nat)) (c : Char) : Bool :=
  ranges.any fun (first, last) => first ≤ c.toNat && c.toNat ≤ last

/-- The lower case of a character on its own; the dotted capital I keeps its dot as a mark. -/
def lowerChar (c : Char) : List Char :=
  if c.toNat < 128 then [c.toLower]
  else if c.toNat = 0x130 then ['i', '\u0307']
  else [shifted lowerRuns c]

/-- The upper case of a character, which may be several characters. -/
def upperChar (c : Char) : List Char :=
  if c.toNat < 128 then [c.toUpper]
  else match upperExpansions.lookup c.toNat with
    | some codes => codes.map Char.ofNat
    | none => [shifted upperRuns c]

def isCased (c : Char) : Bool := within casedRanges c

def isIgnorable (c : Char) : Bool := within ignorableRanges c

/-- A word goes on here: the next character that counts has a case. -/
def continuesWord (rest : List Char) : Bool :=
  (rest.dropWhile isIgnorable).head?.any isCased

/-- Lower case of the rest of a text. `inWord` says that the last character that counts, of those
before, has a case. -/
def lowerChars (inWord : Bool) : List Char → List Char
  | [] => []
  | c :: rest =>
    let mapped :=
      if c = 'Σ' then [if inWord && !continuesWord rest then 'ς' else 'σ'] else lowerChar c
    mapped ++ lowerChars (if isIgnorable c then inWord else isCased c) rest

end Casing

/-- The lower case of a string. A capital sigma that ends a word becomes a final sigma. -/
def lowerCase (s : String) : String :=
  String.ofList (Casing.lowerChars false s.toList)

/-- The upper case of a string. -/
def upperCase (s : String) : String :=
  String.ofList (s.toList.flatMap Casing.upperChar)

end CircuitNames
