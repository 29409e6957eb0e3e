/-!
# Line ends and blanks of module text

Module text knows four line ends: line feed, carriage return, line separator and
paragraph separator. Blanks are the line ends, the other ASCII spacing characters and
the space separators of Unicode, with the byte order mark among them.
-/

namespace BehaviorRegistrar.Text

/-- The four characters that end a line. -/
def isLineEnd (c : Char) : Bool :=
  c == '\n' || c == '\r' || c == '\u2028' || c == '\u2029'

/-- Characters that may be left out of sight between two words of module text. -/
def isBlank (c : Char) : Bool :=
  isLineEnd c || c == '\t' || c == '\x0b' || c == '\x0c' || c == ' ' || c == '\u00a0' ||
  c == '\u1680' || ('\u2000' ≤ c && c ≤ '\u200a') || c == '\u202f' || c == '\u205f' ||
  c == '\u3000' || c == '\ufeff'

theorem isBlank_of_isLineEnd {c : Char} (h : isLineEnd c = true) : isBlank c = true := by
  simp [isBlank, h]

def line : List Char → List Char
  | [] => []
  | c :: r => if isLineEnd c then [c] else c :: line r

def afterLine : List Char → List Char
  | [] => []
  | c :: r => if isLineEnd c then r else afterLine r

theorem line_append_afterLine (s : List Char) : line s ++ afterLine s = s := by
  induction s with
  | nil => rfl
  | cons c r ih => by_cases h : isLineEnd c <;> simp [line, afterLine, h, ih]

theorem length_afterLine_lt (c : Char) (r : List Char) :
    (afterLine (c :: r)).length < (c :: r).length := by
  induction r generalizing c with
  | nil => by_cases h : isLineEnd c <;> simp [afterLine, h]
  | cons d r ih =>
    have hd := ih d
    by_cases h : isLineEnd c
    · simp [afterLine, h]
    · rw [afterLine, if_neg h]
      simp only [List.length_cons] at hd ⊢
      omega

def after? (word : List Char) (s : List Char) : Option (List Char) :=
  match word, s with
  | [], s => some s
  | _ :: _, [] => none
  | w :: ws, c :: r => if w = c then after? ws r else none

theorem after?_eq_some_iff {word s r : List Char} : after? word s = some r ↔ s = word ++ r := by
  induction word generalizing s with
  | nil => simp [after?, eq_comm]
  | cons w ws ih =>
    cases s with
    | nil => simp [after?]
    | cons c t =>
      by_cases h : w = c
      · subst h; simp [after?, ih]
      · simp [after?, h, Ne.symm h]

end BehaviorRegistrar.Text
