namespace CircuitNames

namespace Quoted

/-- The lower-case hexadecimal digits of a control character, four of them. -/
def hexEscape (c : Char) : List Char :=
  let digits := Nat.toDigits 16 c.toNat
  '\\' :: 'u' :: (List.replicate (4 - digits.length) '0' ++ digits)

/-- A character as it stands between quotes. Quotes, backslashes and control characters are escaped, and
everything else stands for itself. -/
def escape (c : Char) : List Char :=
  if c = '"' then ['\\', '"']
  else if c = '\\' then ['\\', '\\']
  else if c = '\n' then ['\\', 'n']
  else if c = '\r' then ['\\', 'r']
  else if c = '\t' then ['\\', 't']
  else if c = '\x08' then ['\\', 'b']
  else if c = '\x0c' then ['\\', 'f']
  else if c.toNat < 32 then hexEscape c
  else [c]

def chars (s : List Char) : List Char :=
  '"' :: s.flatMap escape ++ ['"']

end Quoted

/-- A text between double quotes. -/
def quoted (s : String) : String :=
  String.ofList (Quoted.chars s.toList)

end CircuitNames
