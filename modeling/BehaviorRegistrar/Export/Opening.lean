import BehaviorRegistrar.Text.Blank

/-!
# Openings of a module's export

An opening is a keyword (`export` or `module`), a gap of blanks and dots, a closing word
(`default` or `exports`) and then, before the line ends, a brace. It takes the whole line
before its keyword with it, and ends at the last brace of the line that holds the closing
word. The gap may cross line ends, so an opening can reach into later lines. Gap characters
occur in no word, hence the gap is always the longest run and a scan never has to go back.

The main definition cuts a text into pieces, each kept or an opening; `flatMap_scan` says
that the pieces are the whole text in order.
-/

namespace BehaviorRegistrar.Export

open Text

def keywords : List (List Char) := ["export".toList, "module".toList]

def closingWords : List (List Char) := ["default".toList, "exports".toList]

/-- Characters that may stand between the two words of an opening. -/
def isGap (c : Char) : Bool := isBlank c || c == '.'

def afterWord? (words : List (List Char)) (s : List Char) : Option (List Char) :=
  words.findSome? fun word => after? word s

def afterLastBrace? : List Char → Option (List Char)
  | [] => none
  | c :: r =>
    if isLineEnd c then none
    else match afterLastBrace? r with
      | some rest => some rest
      | none => if c = '{' then some r else none

/-- The rest of a text after the opening whose keyword it starts with. -/
def afterOpening? (s : List Char) : Option (List Char) := do
  let gap ← afterWord? keywords s
  let tail ← afterWord? closingWords (gap.dropWhile isGap)
  afterLastBrace? tail

def afterLastOpening? : List Char → Option (List Char)
  | [] => none
  | c :: r =>
    if isLineEnd c then none
    else match afterLastOpening? r with
      | some rest => some rest
      | none => afterOpening? (c :: r)

theorem afterWord?_eq_some {words : List (List Char)} {s r : List Char}
    (h : afterWord? words s = some r) : ∃ word ∈ words, s = word ++ r := by
  obtain ⟨word, hword, hr⟩ := List.exists_of_findSome?_eq_some h
  exact ⟨word, hword, after?_eq_some_iff.1 hr⟩

theorem afterLastBrace?_suffix {s r : List Char} (h : afterLastBrace? s = some r) :
    ∃ text, s = text ++ '{' :: r := by
  induction s with
  | nil => simp [afterLastBrace?] at h
  | cons c t ih =>
    rw [afterLastBrace?] at h
    split at h
    · simp at h
    · split at h
      · rename_i rest hrest
        obtain rfl : rest = r := by simpa using h
        obtain ⟨text, rfl⟩ := ih hrest
        exact ⟨c :: text, rfl⟩
      · split at h
        · rename_i hc
          obtain rfl : t = r := by simpa using h
          exact ⟨[], by simp [hc]⟩
        · simp at h

theorem afterOpening?_suffix {s r : List Char} (h : afterOpening? s = some r) :
    ∃ text, s = text ++ '{' :: r := by
  simp only [afterOpening?, Option.bind_eq_bind, Option.bind_eq_some_iff] at h
  obtain ⟨gap, hgap, tail, htail, hr⟩ := h
  obtain ⟨keyword, -, rfl⟩ := afterWord?_eq_some hgap
  obtain ⟨closing, -, hclosing⟩ := afterWord?_eq_some htail
  obtain ⟨text, rfl⟩ := afterLastBrace?_suffix hr
  refine ⟨keyword ++ (gap.takeWhile isGap ++ (closing ++ text)), ?_⟩
  have hgap : gap = gap.takeWhile isGap ++ (closing ++ (text ++ '{' :: r)) := by
    rw [← hclosing, List.takeWhile_append_dropWhile]
  calc keyword ++ gap = keyword ++ (gap.takeWhile isGap ++ (closing ++ (text ++ '{' :: r))) := by
        rw [← hgap]
    _ = _ := by simp only [List.append_assoc]

theorem afterLastOpening?_suffix {s r : List Char} (h : afterLastOpening? s = some r) :
    ∃ text, s = text ++ '{' :: r := by
  induction s with
  | nil => simp [afterLastOpening?] at h
  | cons c t ih =>
    rw [afterLastOpening?] at h
    split at h
    · simp at h
    · split at h
      · rename_i rest hrest
        obtain rfl : rest = r := by simpa using h
        obtain ⟨text, rfl⟩ := ih hrest
        exact ⟨c :: text, rfl⟩
      · exact afterOpening?_suffix h

theorem length_lt_of_afterLastOpening? {s r : List Char} (h : afterLastOpening? s = some r) :
    r.length < s.length := by
  obtain ⟨text, rfl⟩ := afterLastOpening?_suffix h
  simp only [List.length_append, List.length_cons]
  omega

/-- A stretch of module text: kept as it is, or an opening to be replaced. -/
inductive Piece where
  | kept (text : List Char)
  | opening (text : List Char)
  deriving DecidableEq, Repr

def Piece.text : Piece → List Char
  | .kept text => text
  | .opening text => text

def Piece.isOpening : Piece → Bool
  | .kept _ => false
  | .opening _ => true

/-- The pieces of a text. Where an opening starts on the current line the text is cut after the
last such opening, and the line goes on from there; otherwise the rest of the line is kept. -/
def scan : List Char → List Piece
  | [] => []
  | c :: r =>
    match _h : afterLastOpening? (c :: r) with
    | some rest =>
      .opening ((c :: r).take ((c :: r).length - rest.length)) :: scan rest
    | none => .kept (line (c :: r)) :: scan (afterLine (c :: r))
termination_by s => s.length
decreasing_by
  · exact length_lt_of_afterLastOpening? _h
  · exact length_afterLine_lt c r

theorem flatMap_scan (s : List Char) : (scan s).flatMap Piece.text = s := by
  fun_induction scan s with
  | case1 => rfl
  | case2 c r rest h ih =>
    rw [List.flatMap_cons, ih]
    obtain ⟨text, htext⟩ := afterLastOpening?_suffix h
    rw [htext]
    have hlen : (text ++ '{' :: rest).length - rest.length = text.length + 1 := by
      simp only [List.length_append, List.length_cons]
      omega
    rw [hlen]
    simp [Piece.text, List.take_append, List.take_of_length_le]
  | case3 c r h ih =>
    rw [List.flatMap_cons, ih]
    exact line_append_afterLine (c :: r)

end BehaviorRegistrar.Export
