import CircuitNames.Rename.Keywords
import CircuitNames.Rename.Scope
import CircuitNames.Text.Casing

namespace CircuitNames

/-- Picks a new name for a name in its scope, or none to keep it. The rule may reserve names in the
scope; a name it picks is free there or was reserved by the rule itself. -/
abbrev Rule := String → Scope → Option String × Scope

namespace Rule

/-- The rule that keeps every name. -/
def keep : Rule := fun _ scope => (none, scope)

/-- Renames the names that are keywords by appending underscores, to a name that is free and no
keyword either. -/
def avoidKeywords (keywords : List String) : Rule := fun name scope =>
  if keywords.contains name then
    let (fresh, scope) := scope.allocate name keywords "_"
    (some fresh, scope)
  else (none, scope)

/-- Renames the names that a case mapping changes. -/
def changeCase (map : String → String) : Rule := fun name scope =>
  if map name = name then (none, scope)
  else
    let (fresh, scope) := scope.newName (map name)
    (some fresh, scope)

/-- Puts a text in front of every name. -/
def prepend (front : String) : Rule := fun name scope =>
  let (fresh, scope) := scope.newName (front ++ name)
  (some fresh, scope)

end Rule

/-- The rules a configuration can name. -/
inductive RuleSpec where
  | verilogKeywords
  | keywords (words : List String)
  | lowerCase
  | upperCase
  | prepend (front : String)
deriving DecidableEq, Repr

namespace RuleSpec

/-- The names of the rules. -/
def names : List String := ["verilog-keywords", "keywords", "lower-case", "upper-case", "prefix"]

def name : RuleSpec → String
  | verilogKeywords => "verilog-keywords"
  | keywords _ => "keywords"
  | lowerCase => "lower-case"
  | upperCase => "upper-case"
  | prepend _ => "prefix"

/-- The rule that is asked for, with its data. -/
def rule : RuleSpec → Rule
  | verilogKeywords => .avoidKeywords CircuitNames.verilogKeywords
  | keywords words => .avoidKeywords words
  | lowerCase => .changeCase CircuitNames.lowerCase
  | upperCase => .changeCase CircuitNames.upperCase
  | prepend front => .prepend front

/-- The name under which a pass with this rule is logged. -/
def passName : RuleSpec → String
  | verilogKeywords => "verilog-rename"
  | keywords _ => "keyword-collisions"
  | lowerCase => "lower-case-names"
  | upperCase => "upper-case-names"
  | prepend front => s!"prefix:{front}"

end RuleSpec

end CircuitNames
