namespace CircuitNames

namespace Units

/-- The 16-bit units a character is encoded with: one, or a surrogate pair. -/
def ofChar (c : Char) : List Nat :=
  if c.toNat < 0x10000 then [c.toNat]
  else [0xD800 + (c.toNat - 0x10000) / 0x400, 0xDC00 + (c.toNat - 0x10000) % 0x400]

def ofString (s : String) : List Nat := s.toList.flatMap ofChar

/-- Strings in the order of their 16-bit units. -/
def compare (s t : String) : Ordering :=
  List.compareLex Ord.compare (ofString s) (ofString t)

def sort (names : List String) : List String :=
  names.mergeSort fun s t => (compare s t).isLE

end Units

namespace Collation

/-- The characters lighter than every letter, the lightest first: white space, signs, digits. -/
def signs : List Char :=
  "\t\n\x0b\x0c\r\u0085\u2028\u2029 _-,;:!?.'\"()[]\x7b\x7d@*/\\&#%`^+<=>|~$0123456789".toList

/-- The two cases of a letter weigh the same. Characters beyond these weigh more than the letters. -/
def weight (c : Char) : Nat :=
  match signs.idxOf? c with
  | some place => place
  | none => signs.length + c.toLower.toNat

def caseRank (c : Char) : Nat := if c.isUpper then 1 else 0

/-- Control characters that are no white space have no weight at all. -/
def isWeightless (c : Char) : Bool :=
  (c.toNat < 0x20 || (0x7F ≤ c.toNat && c.toNat < 0xA0)) && !signs.contains c

/-- The characters of a string that are compared. -/
def weighed (s : String) : List Char := s.toList.filter (!isWeightless ·)

/-- Whole strings are compared by weight first; between equals the first place where the case differs
decides, with the lower case before the upper. -/
def compare (s t : String) : Ordering :=
  (List.compareLex Ord.compare ((weighed s).map weight) ((weighed t).map weight)).then
    (List.compareLex Ord.compare ((weighed s).map caseRank) ((weighed t).map caseRank))

/-- Strings in the order of their weights. -/
def le (s t : String) : Bool := (compare s t).isLE

end Collation

end CircuitNames
