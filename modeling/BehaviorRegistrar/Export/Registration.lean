import BehaviorRegistrar.Export.Opening

/-!
# Registering a module's export

Every opening of a module's export becomes an assignment to one place, the registration path.
The replacement is literal text: nothing in the path is expanded. The pieces come from the text
alone, so the path never decides what is replaced.
-/

namespace BehaviorRegistrar.Export

/-- The place in the behaviors registry of the global object `root` where `name` is kept. -/
def registrationPath (root name : String) : String :=
  s!"window.{root}.behaviors.{name}"

def assignment (path : List Char) : List Char := path ++ " = \x7b".toList

def Piece.registered (path : List Char) : Piece → List Char
  | .kept text => text
  | .opening _ => assignment path

/-- The module text with all its openings replaced by assignments to `path`. -/
def registered (path s : List Char) : List Char :=
  (scan s).flatMap (Piece.registered path)

def hasOpening (s : List Char) : Bool := (scan s).any Piece.isOpening

structure Registered where
  /-- The text with its openings replaced. -/
  text : String
  /-- Whether anything was replaced. -/
  matched : Bool
  deriving DecidableEq, Repr

/-- Replaces every opening of `content` by an assignment to `path`. -/
def register (content path : String) : Registered where
  text := String.ofList (registered path.toList content.toList)
  matched := hasOpening content.toList

theorem registered_eq_self {path s : List Char} (h : hasOpening s = false) :
    registered path s = s := by
  have hpieces : ∀ piece ∈ scan s, piece.registered path = piece.text := by
    intro piece hmem
    have hopen := List.any_eq_false.1 h piece hmem
    cases piece with
    | kept text => rfl
    | opening text => simp [Piece.isOpening] at hopen
  rw [registered, List.flatMap_def, List.map_congr_left hpieces, ← List.flatMap_def, flatMap_scan]

end BehaviorRegistrar.Export
