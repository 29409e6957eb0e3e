import BehaviorRegistrar.Export.Opening

/-!
# Patterns with priorities

A pattern matches a text in an order of preference: of a choice the left side comes first, and a
repetition prefers one more round. `Pattern.rests` lists what the matches leave, the preferred one
first. A search takes the smallest start that matches, and goes on where the match ends.

The opening of an export is the pattern `opening`. It is stated here without the scan, as the
account of what the scan has to find.
-/

namespace BehaviorRegistrar.Export

inductive Pattern where
  | one (accepts : Char → Bool)
  | sequence (first second : Pattern)
  | choice (left right : Pattern)
  | many (body : Pattern)

namespace Pattern

/-- What the matches of a pattern at the start of a text leave of it, preferred matches first.
A repetition goes on only after a round that took something. -/
def rests : Pattern → List Char → List (List Char)
  | .one _, [] => []
  | .one accepts, c :: r => if accepts c then [r] else []
  | .sequence first second, s => (rests first s).flatMap fun r => rests second r
  | .choice left right, s => rests left s ++ rests right s
  | .many body, s =>
    ((rests body s).flatMap fun r =>
      if _h : r.length < s.length then rests (.many body) r else []) ++ [s]
termination_by pattern s => (sizeOf pattern, s.length)

def rest? (pattern : Pattern) (s : List Char) : Option (List Char) := (pattern.rests s).head?

/-- The first start that matches: the text before it and the text after the match. -/
def search (pattern : Pattern) : List Char → Option (List Char × List Char)
  | [] => (pattern.rest? []).map fun rest => ([], rest)
  | c :: r =>
    match pattern.rest? (c :: r) with
    | some rest => some ([], rest)
    | none => (pattern.search r).map fun found => (c :: found.1, found.2)

/-- The texts between the matches of a pattern, from one match's end to the next one's start.
A match that takes nothing ends the search. -/
def between (pattern : Pattern) (s : List Char) : List (List Char) :=
  match pattern.search s with
  | none => [s]
  | some (text, rest) =>
    if _h : rest.length < s.length then text :: between pattern rest else [s]
termination_by s.length

def word : List Char → Pattern
  | [] => .many (.one fun _ => false)
  | c :: r => .sequence (.one (· == c)) (word r)

/-- The opening of an export: a stretch of the line, a keyword, a gap, a closing word, a stretch of
the line, a brace. -/
def opening : Pattern :=
  let stretch : Pattern := .many (.one fun c => !Text.isLineEnd c)
  let gap : Pattern := .many (.choice (.one Text.isBlank) (.one (· == '.')))
  .sequence stretch <|
  .sequence (.choice (word "export".toList) (word "module".toList)) <|
  .sequence gap <|
  .sequence (.choice (word "default".toList) (word "exports".toList)) <|
  .sequence stretch (.one (· == '{'))

end Pattern

end BehaviorRegistrar.Export
