import CircuitNames.Json.Basic
import CircuitNames.Number.Decimal
import CircuitNames.Text.Quoted

namespace CircuitNames

namespace Json

namespace Printer

/-- A number as it is written. An infinity has no text in this format and is written as null. -/
def number : Number → List Char
  | .infinite _ => "null".toList
  | finite => finite.chars

mutual

/-- A value on one line. -/
def compact : Json → List Char
  | .null => "null".toList
  | .bool true => "true".toList
  | .bool false => "false".toList
  | .number n => number n
  | .string s => Quoted.chars s.toList
  | .array items => '[' :: compactItems items ++ [']']
  | .object fields => '{' :: compactFields fields ++ ['}']

def compactItems : List Json → List Char
  | [] => []
  | [last] => compact last
  | item :: rest => compact item ++ ',' :: compactItems rest

def compactFields : List (String × Json) → List Char
  | [] => []
  | [(key, last)] => Quoted.chars key.toList ++ ':' :: compact last
  | (key, item) :: rest =>
    Quoted.chars key.toList ++ ':' :: compact item ++ ',' :: compactFields rest

end

/-- A new line at a level of indentation. -/
def newLine (level : Nat) : List Char := '\n' :: List.replicate (2 * level) ' '

mutual

/-- A value over several lines, indented by two spaces a level; what is empty stays on one line. -/
def indented (level : Nat) : Json → List Char
  | .null => "null".toList
  | .bool true => "true".toList
  | .bool false => "false".toList
  | .number n => number n
  | .string s => Quoted.chars s.toList
  | .array [] => "[]".toList
  | .array items => '[' :: indentedItems (level + 1) items ++ newLine level ++ [']']
  | .object [] => ['{', '}']
  | .object fields => '{' :: indentedFields (level + 1) fields ++ newLine level ++ ['}']

def indentedItems (level : Nat) : List Json → List Char
  | [] => []
  | [last] => newLine level ++ indented level last
  | item :: rest => newLine level ++ indented level item ++ ',' :: indentedItems level rest

def indentedFields (level : Nat) : List (String × Json) → List Char
  | [] => []
  | [(key, last)] => newLine level ++ Quoted.chars key.toList ++ ':' :: ' ' :: indented level last
  | (key, item) :: rest =>
    newLine level ++ Quoted.chars key.toList ++ ':' :: ' ' :: indented level item ++
      ',' :: indentedFields level rest

end

end Printer

/-- The text of a value on one line. -/
def compactText (value : Json) : String := String.ofList (Printer.compact value)

/-- The indented text, which ends its last line. -/
def fileText (value : Json) : String := String.ofList (Printer.indented 0 value ++ ['\n'])

end Json

end CircuitNames
