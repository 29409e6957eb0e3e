/-!
# Places in a text

A place is counted in the bytes of the text's UTF-8 form. Readers work on what is left of a text, so
they name a place by the number of bytes after it; the line and column come from the whole text.
Lines are counted from one and end at line feeds, columns count the bytes since the last line feed.
-/

namespace BehaviorRegistrar.Text

def byteLength (s : List Char) : Nat := s.foldl (fun n c => n + c.utf8Size) 0

structure Place where
  line : Nat
  column : Nat
  deriving DecidableEq, Repr

namespace Place

def start : Place := ⟨1, 0⟩

/-- The place `offset` bytes after `place`, where `s` is the text that follows `place`. -/
def advance (place : Place) : List Char → Nat → Place
  | [], _ => place
  | c :: r, offset =>
    if offset < c.utf8Size then { place with column := place.column + offset }
    else if c = '\n' then advance ⟨place.line + 1, 0⟩ r (offset - c.utf8Size)
    else advance { place with column := place.column + c.utf8Size } r (offset - c.utf8Size)

def ofBytesLeft (s : List Char) (left : Nat) : Place := start.advance s (byteLength s - left)

def describe (what : String) (place : Place) : String :=
  s!"{what} at line {place.line} column {place.column}"

end Place

end BehaviorRegistrar.Text
