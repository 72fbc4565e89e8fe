namespace CircuitNames

namespace Pieces

/-- What stands before the first mark, and what stands after it if there is one. -/
def cut (mark : Char) : List Char → List Char × Option (List Char)
  | [] => ([], none)
  | c :: rest =>
    if c = mark then ([], some rest)
    else
      let (before, after) := cut mark rest
      (c :: before, after)

/-- The pieces between the marks; a text without a mark is one piece. -/
def split (mark : Char) : List Char → List (List Char)
  | [] => [[]]
  | c :: rest =>
    if c = mark then [] :: split mark rest
    else match split mark rest with
      | [] => [[c]]
      | first :: more => (c :: first) :: more

/-- What is cut at every mark comes out as one piece at least. -/
theorem split_ne_nil (mark : Char) (text : List Char) : split mark text ≠ [] := by
  cases text with
  | nil => simp [split]
  | cons c rest =>
    simp only [split]
    split
    · simp
    · split <;> simp

/-- Cutting loses nothing but the mark. -/
theorem cut_rejoin (mark : Char) (text : List Char) :
    (cut mark text).1 ++ ((cut mark text).2.map (mark :: ·)).getD [] = text := by
  induction text with
  | nil => rfl
  | cons c rest ih =>
    simp only [cut]
    split
    next h => simp [h]
    next => simpa using ih

end Pieces

end CircuitNames
