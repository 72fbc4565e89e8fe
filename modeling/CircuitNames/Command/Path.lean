import CircuitNames.Text.Pieces

namespace CircuitNames

/-- An absolute path, as the names that lead from the root. -/
structure Path where
  names : List String
deriving DecidableEq, Repr

namespace Path

def root : Path := ⟨[]⟩

instance : Inhabited Path := ⟨root⟩

/-- Goes one step: an empty name and a dot stay in place, two dots lead back. -/
def step (path : Path) (name : String) : Path :=
  if name = "" ∨ name = "." then path
  else if name = ".." then ⟨path.names.dropLast⟩
  else ⟨path.names ++ [name]⟩

/-- Where a text leads from a path; a text with a leading slash starts at the root. -/
def resolve (base : Path) (text : String) : Path :=
  let start := if text.toList.head? = some '/' then root else base
  (Pieces.split '/' text.toList).foldl (fun path piece => path.step (String.ofList piece)) start

def text (path : Path) : String := "/" ++ "/".intercalate path.names

def parent (path : Path) : Path := ⟨path.names.dropLast⟩

/-- The path itself and all that lead to it, the nearest first and the root last. -/
def upward (path : Path) : List Path :=
  (List.range (path.names.length + 1)).reverse.map fun length => ⟨path.names.take length⟩

end Path

end CircuitNames
