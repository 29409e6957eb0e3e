/-!
# Pieces of a text between marks

Cutting a text at every mark gives one piece more than there are marks.
-/

namespace BehaviorRegistrar.Text

/-- The pieces of a text between the marks, empty ones included. -/
def pieces (mark : Char) : List Char → List (List Char)
  | [] => [[]]
  | c :: r =>
    if c = mark then [] :: pieces mark r
    else match pieces mark r with
      | [] => [[c]]
      | first :: rest => (c :: first) :: rest

theorem pieces_ne_nil (mark : Char) (s : List Char) : pieces mark s ≠ [] := by
  cases s with
  | nil => simp [pieces]
  | cons c r =>
    rw [pieces]
    split
    · simp
    · split <;> simp

end BehaviorRegistrar.Text
