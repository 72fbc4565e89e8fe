namespace CircuitNames

namespace Identifier

def isHead (c : Char) : Bool := c.isAlpha || c == '_'

def isTail (c : Char) : Bool := c.isAlphanum || c == '_' || c == '$'

/-- An identifier begins with a letter or an underscore. -/
def accepts : List Char → Bool
  | [] => false
  | head :: tail => isHead head && tail.all isTail

end Identifier

/-- Identifiers: a letter or underscore, then letters, digits, underscores and dollar signs, all ASCII. -/
def isIdentifier (name : String) : Bool := Identifier.accepts name.toList

end CircuitNames
