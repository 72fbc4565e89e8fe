import CircuitNames.Json.Basic

namespace CircuitNames

namespace Json

namespace Reader

/-- The characters that may stand between any two parts of a text. -/
def isBlank (c : Char) : Bool := c == ' ' || c == '\n' || c == '\r' || c == '\t'

def skipBlanks (input : List Char) : List Char := input.dropWhile isBlank

/-- The value of a hexadecimal digit. -/
def hexValue? (c : Char) : Option Nat :=
  if c.isDigit then some (c.toNat - 48)
  else if 'a' ≤ c ∧ c ≤ 'f' then some (c.toNat - 87)
  else if 'A' ≤ c ∧ c ≤ 'F' then some (c.toNat - 55)
  else none

/-- The character that a backslash and this letter stand for. -/
def escaped? (c : Char) : Option Char :=
  if c = '"' ∨ c = '\\' ∨ c = '/' then some c
  else if c = 'b' then some '\x08'
  else if c = 'f' then some '\x0c'
  else if c = 'n' then some '\n'
  else if c = 'r' then some '\r'
  else if c = 't' then some '\t'
  else none

/-- The codes of a string up to its closing quote, and the input after it. An escaped half of a
surrogate pair is a code of its own here. -/
def codes : List Char → Option (List Nat × List Char)
  | [] => none
  | '"' :: rest => some ([], rest)
  | '\\' :: 'u' :: a :: b :: c :: d :: rest => do
    let unit := 4096 * (← hexValue? a) + 256 * (← hexValue? b) + 16 * (← hexValue? c) +
      (← hexValue? d)
    let (more, rest) ← codes rest
    return (unit :: more, rest)
  | '\\' :: letter :: rest => do
    let c ← escaped? letter
    let (more, rest) ← codes rest
    return (c.toNat :: more, rest)
  | c :: rest =>
    if c.toNat < 32 ∨ c = '\\' then none
    else do
      let (more, rest) ← codes rest
      return (c.toNat :: more, rest)

/-- Joins surrogate pairs; a half without its partner becomes a replacement character. -/
def joined : List Nat → List Char
  | high :: low :: rest =>
    if 0xD800 ≤ high ∧ high < 0xDC00 ∧ 0xDC00 ≤ low ∧ low < 0xE000 then
      Char.ofNat (0x10000 + (high - 0xD800) * 0x400 + (low - 0xDC00)) :: joined rest
    else (if 0xD800 ≤ high ∧ high < 0xE000 then '\uFFFD' else Char.ofNat high) ::
      joined (low :: rest)
  | [last] => [if 0xD800 ≤ last ∧ last < 0xE000 then '\uFFFD' else Char.ofNat last]
  | [] => []

/-- The text after an opening quote. -/
def string (input : List Char) : Option (String × List Char) :=
  (codes input).map fun (found, rest) => (String.ofList (joined found), rest)

/-- At least one digit, and the input after the last one. -/
def digits (input : List Char) : Option (List Char × List Char) :=
  match input.takeWhile Char.isDigit with
  | [] => none
  | found => some (found, input.dropWhile Char.isDigit)

/-- Digits of a whole number: no zero leads others. -/
def wholePart (input : List Char) : Option (List Char × List Char) :=
  match input with
  | '0' :: rest => some (['0'], rest)
  | _ => digits input

def fractionPart (input : List Char) : Option (List Char × List Char) :=
  match input with
  | '.' :: rest => digits rest
  | _ => some ([], input)

def exponentDigits (input : List Char) : Option (Int × List Char) :=
  match input with
  | '-' :: rest => (digits rest).map fun (found, rest) => (-Nat.ofDigitChars 10 found 0, rest)
  | '+' :: rest => (digits rest).map fun (found, rest) => (Nat.ofDigitChars 10 found 0, rest)
  | _ => (digits input).map fun (found, rest) => (Nat.ofDigitChars 10 found 0, rest)

def exponentPart (input : List Char) : Option (Int × List Char) :=
  match input with
  | 'e' :: rest | 'E' :: rest => exponentDigits rest
  | _ => some (0, input)

/-- A number without its sign: its whole part, and perhaps a fraction and an exponent. -/
def magnitude (negative : Bool) (input : List Char) : Option (Number × List Char) := do
  let (whole, rest) ← wholePart input
  let (fraction, rest) ← fractionPart rest
  let (exponent, rest) ← exponentPart rest
  return (.ofDecimal negative (Nat.ofDigitChars 10 (whole ++ fraction) 0)
    (exponent - fraction.length), rest)

/-- A number. Nothing else may stand before its digits than a minus sign. -/
def number (input : List Char) : Option (Number × List Char) :=
  match input with
  | '-' :: rest => magnitude true rest
  | _ => magnitude false input

mutual

/-- A value and the input after it. Every two steps consume a character, so twice the length of the
input is fuel enough. -/
def value : Nat → List Char → Option (Json × List Char)
  | 0, _ => none
  | fuel + 1, input =>
    match input with
    | 'n' :: 'u' :: 'l' :: 'l' :: rest => some (.null, rest)
    | 't' :: 'r' :: 'u' :: 'e' :: rest => some (.bool true, rest)
    | 'f' :: 'a' :: 'l' :: 's' :: 'e' :: rest => some (.bool false, rest)
    | '"' :: rest => (string rest).map fun (s, rest) => (.string s, rest)
    | '[' :: rest =>
      match skipBlanks rest with
      | ']' :: rest => some (.array [], rest)
      | inner => (items fuel inner).map fun (found, rest) => (.array found, rest)
    | '{' :: rest =>
      match skipBlanks rest with
      | '}' :: rest => some (.object [], rest)
      | inner => (fields fuel inner).map fun (found, rest) => (.ofFields found, rest)
    | _ => (number input).map fun (n, rest) => (.number n, rest)

/-- The rest of an array from a value on, up to and with its closing bracket. -/
def items : Nat → List Char → Option (List Json × List Char)
  | 0, _ => none
  | fuel + 1, input => do
    let (item, rest) ← value fuel input
    match skipBlanks rest with
    | ',' :: rest =>
      let (more, rest) ← items fuel (skipBlanks rest)
      return (item :: more, rest)
    | ']' :: rest => return ([item], rest)
    | _ => none

/-- The rest of an object from a key on, up to and with its closing brace. -/
def fields : Nat → List Char → Option (List (String × Json) × List Char)
  | 0, _ => none
  | fuel + 1, input =>
    match input with
    | '"' :: rest => do
      let (key, rest) ← string rest
      match skipBlanks rest with
      | ':' :: rest =>
        let (item, rest) ← value fuel (skipBlanks rest)
        match skipBlanks rest with
        | ',' :: rest =>
          let (more, rest) ← fields fuel (skipBlanks rest)
          return ((key, item) :: more, rest)
        | '}' :: rest => return ([(key, item)], rest)
        | _ => none
      | _ => none
    | _ => none

end

end Reader

/-- The value of a text that holds one value and nothing else but blanks. -/
def read? (text : String) : Option Json := do
  let input := text.toList
  let (found, rest) ← Reader.value (2 * input.length + 1) (Reader.skipBlanks input)
  if Reader.skipBlanks rest = [] then some found else none

end Json

end CircuitNames
