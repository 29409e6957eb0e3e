import BehaviorRegistrar.Proofs.Export.Matching

/-! # Registration replaces the matches of the opening's pattern -/

namespace BehaviorRegistrar.Export

open Text

namespace Pattern

@[simp] theorem rests_one_nil (accepts : Char → Bool) : rests (.one accepts) [] = [] := by
  rw [rests]

@[simp] theorem rests_one_cons (accepts : Char → Bool) (c : Char) (r : List Char) :
    rests (.one accepts) (c :: r) = if accepts c then [r] else [] := by
  rw [rests]

theorem rest?_sequence (first second : Pattern) (s : List Char) :
    rest? (.sequence first second) s = (rests first s).findSome? (rest? second) := by
  rw [rest?, rests, List.head?_flatMap]
  rfl

@[simp] theorem rest?_one_nil (accepts : Char → Bool) : rest? (.one accepts) [] = none := by
  simp [rest?]

@[simp] theorem rest?_one_cons (accepts : Char → Bool) (c : Char) (r : List Char) :
    rest? (.one accepts) (c :: r) = if accepts c then some r else none := by
  by_cases h : accepts c = true <;> simp [rest?, h]

@[simp] theorem rests_many_one_nil (accepts : Char → Bool) :
    rests (.many (.one accepts)) [] = [[]] := by
  rw [rests]
  simp

@[simp] theorem rests_many_one_cons (accepts : Char → Bool) (c : Char) (r : List Char) :
    rests (.many (.one accepts)) (c :: r) =
      if accepts c then rests (.many (.one accepts)) r ++ [c :: r] else [c :: r] := by
  rw [rests]
  by_cases h : accepts c = true <;> simp [h]

theorem rests_many_congr {p q : Pattern} (h : ∀ s, rests p s = rests q s) (s : List Char) :
    rests (.many p) s = rests (.many q) s := by
  induction hn : s.length using Nat.strong_induction_on generalizing s with
  | _ n ih =>
    rw [rests, rests, h s]
    congr 1
    refine List.flatMap_congr fun r hr => ?_
    split
    · rename_i hlt
      exact ih r.length (hn ▸ hlt) r rfl
    · rfl

/-- Of the stretches that a greedy stretch may take, the longest one wins that the rest of the
pattern can follow. -/
theorem rest?_greedy_cons (accepts : Char → Bool) (pattern : Pattern) (c : Char) (r : List Char) :
    rest? (.sequence (.many (.one accepts)) pattern) (c :: r) =
      if accepts c then
        (rest? (.sequence (.many (.one accepts)) pattern) r).or (rest? pattern (c :: r))
      else rest? pattern (c :: r) := by
  simp only [rest?_sequence, rests_many_one_cons]
  split
  · rw [List.findSome?_append]
    simp
  · simp

theorem rest?_greedy_nil (accepts : Char → Bool) (pattern : Pattern) :
    rest? (.sequence (.many (.one accepts)) pattern) [] = rest? pattern [] := by
  simp [rest?_sequence]

/-- A greedy stretch before a pattern that never starts with one of its characters gives nothing
back. -/
theorem rest?_greedy_of_disjoint {accepts : Char → Bool} {pattern : Pattern}
    (h : ∀ c r, accepts c = true → rest? pattern (c :: r) = none) (s : List Char) :
    rest? (.sequence (.many (.one accepts)) pattern) s = rest? pattern (s.dropWhile accepts) := by
  induction s with
  | nil => exact rest?_greedy_nil accepts pattern
  | cons c r ih =>
    rw [rest?_greedy_cons]
    by_cases hc : accepts c = true
    · rw [if_pos hc, ih, h c r hc, Option.or_none, List.dropWhile_cons_of_pos hc]
    · rw [if_neg hc, List.dropWhile_cons_of_neg hc]

theorem rests_word (w s : List Char) : rests (word w) s = (after? w s).toList := by
  induction w generalizing s with
  | nil => cases s <;> simp [word, after?]
  | cons x w ih =>
    cases s with
    | nil => simp [word, rests, after?]
    | cons c r =>
      by_cases h : x = c
      · subst h
        simp [word, rests, after?, ih]
      · simp [word, rests, after?, h, Ne.symm h]

/-- Of two words with different first characters at most one starts a text. -/
theorem rest?_words {x y : Char} (hxy : x ≠ y) (v w : List Char) (pattern : Pattern)
    (s : List Char) :
    rest? (.sequence (.choice (word (x :: v)) (word (y :: w))) pattern) s =
      (afterWord? [x :: v, y :: w] s).bind (rest? pattern) := by
  simp only [rest?_sequence, rests, rests_word, List.findSome?_append, afterWord?,
    List.findSome?_cons, List.findSome?_nil]
  cases hv : after? (x :: v) s with
  | none => cases hw : after? (y :: w) s <;> simp
  | some r =>
    have hw : after? (y :: w) s = none := by
      rw [after?_eq_some_iff] at hv
      subst hv
      simp [after?, hxy.symm]
    simp [hw]

theorem between_ne_nil (pattern : Pattern) (s : List Char) : pattern.between s ≠ [] := by
  rw [between]
  split
  · simp
  · split <;> simp

end Pattern

theorem afterWord?_keywords_of_isLineEnd {c : Char} (h : isLineEnd c = true) (r : List Char) :
    afterWord? keywords (c :: r) = none := by
  have he : c ≠ 'e' := by rintro rfl; simp [isLineEnd] at h
  have hm : c ≠ 'm' := by rintro rfl; simp [isLineEnd] at h
  simp [afterWord?, keywords, after?, he.symm, hm.symm]

theorem afterWord?_closingWords_of_isGap {c : Char} (h : isGap c = true) (r : List Char) :
    afterWord? closingWords (c :: r) = none := by
  have hd : c ≠ 'd' := by rintro rfl; simp [isGap, isBlank, isLineEnd] at h
  have he : c ≠ 'e' := by rintro rfl; simp [isGap, isBlank, isLineEnd] at h
  simp [afterWord?, closingWords, after?, hd.symm, he.symm]

theorem rest?_lastBrace (s : List Char) :
    Pattern.rest? (.sequence (.many (.one fun c => !isLineEnd c)) (.one (· == '{'))) s =
      afterLastBrace? s := by
  induction s with
  | nil => simp [Pattern.rest?_greedy_nil, Pattern.rest?_one_nil, afterLastBrace?]
  | cons c r ih =>
    rw [Pattern.rest?_greedy_cons, ih, afterLastBrace?]
    by_cases hc : isLineEnd c = true
    · have hbrace : c ≠ '{' := by rintro rfl; simp [isLineEnd] at hc
      simp [hc, hbrace]
    · cases afterLastBrace? r <;> simp [hc]

/-- What the gap, a closing word and the way to the last brace of its line leave of a text. -/
def afterGap? (s : List Char) : Option (List Char) :=
  (afterWord? closingWords (s.dropWhile isGap)).bind afterLastBrace?

theorem afterOpening?_eq (s : List Char) :
    afterOpening? s = (afterWord? keywords s).bind afterGap? := rfl

/-- The part of the pattern from the keyword on leaves what follows the opening. -/
theorem rest?_fromKeyword (s : List Char) :
    Pattern.rest?
      (.sequence (.choice (Pattern.word "export".toList) (Pattern.word "module".toList)) <|
        .sequence (.many (.choice (.one isBlank) (.one (· == '.')))) <|
        .sequence (.choice (Pattern.word "default".toList) (Pattern.word "exports".toList)) <|
        .sequence (.many (.one fun c => !isLineEnd c)) (.one (· == '{'))) s =
      afterOpening? s := by
  have hwords : ∀ t, Pattern.rest?
      (.sequence (.choice (Pattern.word "default".toList) (Pattern.word "exports".toList)) <|
        .sequence (.many (.one fun c => !isLineEnd c)) (.one (· == '{'))) t =
      (afterWord? closingWords t).bind afterLastBrace? := by
    intro t
    rw [← funext rest?_lastBrace]
    exact Pattern.rest?_words (by decide) _ _ _ t
  have hgap : ∀ t, Pattern.rests (.many (.choice (.one isBlank) (.one (· == '.')))) t =
      Pattern.rests (.many (.one isGap)) t := by
    refine Pattern.rests_many_congr fun t => ?_
    cases t with
    | nil => simp [Pattern.rests]
    | cons c r =>
      by_cases hdot : c = '.'
      · subst hdot
        simp [Pattern.rests, isGap, isBlank, isLineEnd]
      · simp [Pattern.rests, isGap, hdot]
  rw [afterOpening?_eq]
  refine (Pattern.rest?_words (by decide) _ _ _ s).trans ?_
  congr 1
  funext t
  rw [Pattern.rest?_sequence, hgap, ← Pattern.rest?_sequence, Pattern.rest?_greedy_of_disjoint,
    hwords, afterGap?]
  intro c r hc
  rw [hwords, afterWord?_closingWords_of_isGap hc, Option.bind_none]

/-- The preferred match of the pattern takes the last opening of the line. -/
theorem rest?_opening (s : List Char) : Pattern.opening.rest? s = afterLastOpening? s := by
  induction s with
  | nil =>
    rw [Pattern.opening, Pattern.rest?_greedy_nil, rest?_fromKeyword]
    rfl
  | cons c r ih =>
    rw [Pattern.opening] at ih ⊢
    rw [Pattern.rest?_greedy_cons, ih, rest?_fromKeyword, afterLastOpening?]
    by_cases hc : isLineEnd c = true
    · simp [hc, afterOpening?_eq, afterWord?_keywords_of_isLineEnd hc]
    · cases afterLastOpening? r <;> simp [hc]

/-- Where no opening starts on the line, a search goes on after the line. -/
theorem search_of_afterLastOpening?_eq_none {s : List Char} (h : afterLastOpening? s = none) :
    Pattern.opening.search s =
      (Pattern.opening.search (afterLine s)).map fun found => (line s ++ found.1, found.2) := by
  induction s with
  | nil => simp [Pattern.search, rest?_opening, afterLastOpening?, afterLine]
  | cons c r ih =>
    rw [Pattern.search, rest?_opening, h, line, afterLine]
    by_cases hc : isLineEnd c = true
    · simp [hc]
    · rw [afterLastOpening?, if_neg hc] at h
      have hr : afterLastOpening? r = none := by
        cases hr : afterLastOpening? r with
        | none => rfl
        | some rest => simp [hr] at h
      simp [hc, ih hr, Function.comp_def]

theorem scan_of_opening {s rest : List Char} (h : afterLastOpening? s = some rest) :
    scan s = .opening (s.take (s.length - rest.length)) :: scan rest := by
  cases s with
  | nil => simp [afterLastOpening?] at h
  | cons c r =>
    rw [scan]
    split <;> simp_all

theorem scan_of_kept {s : List Char} (hs : s ≠ []) (h : afterLastOpening? s = none) :
    scan s = .kept (line s) :: scan (afterLine s) := by
  cases s with
  | nil => contradiction
  | cons c r =>
    rw [scan]
    split <;> simp_all

@[simp] theorem registered_nil (path : List Char) : registered path [] = [] := by
  simp [registered, scan]

theorem registered_of_opening {s rest : List Char} (h : afterLastOpening? s = some rest)
    (path : List Char) : registered path s = assignment path ++ registered path rest := by
  rw [registered, scan_of_opening h]
  rfl

theorem registered_of_kept {s : List Char} (h : afterLastOpening? s = none) (path : List Char) :
    registered path s = line s ++ registered path (afterLine s) := by
  rcases eq_or_ne s [] with rfl | hs
  · rfl
  · rw [registered, scan_of_kept hs h]
    rfl

theorem hasOpening_of_opening {s rest : List Char} (h : afterLastOpening? s = some rest) :
    hasOpening s = true := by
  rw [hasOpening, scan_of_opening h]
  rfl

theorem hasOpening_of_kept {s : List Char} (h : afterLastOpening? s = none) :
    hasOpening s = hasOpening (afterLine s) := by
  rcases eq_or_ne s [] with rfl | hs
  · rfl
  · rw [hasOpening, scan_of_kept hs h]
    rfl

/-- The text before the first match, then the assignment, then what registration makes of the text
after the match. -/
theorem registered_eq_search (path s : List Char) :
    registered path s =
      match Pattern.opening.search s with
      | none => s
      | some (text, rest) => text ++ assignment path ++ registered path rest := by
  fun_induction scan s with
  | case1 => simp [Pattern.search, rest?_opening, afterLastOpening?]
  | case2 c r rest h ih =>
    rw [registered_of_opening h, Pattern.search, rest?_opening, h]
    rfl
  | case3 c r h ih =>
    rw [registered_of_kept h, search_of_afterLastOpening?_eq_none h, ih]
    cases Pattern.opening.search (afterLine (c :: r)) with
    | none => exact line_append_afterLine (c :: r)
    | some found => simp

theorem hasOpening_eq_isSome_search (s : List Char) :
    hasOpening s = (Pattern.opening.search s).isSome := by
  fun_induction scan s with
  | case1 => simp [hasOpening, scan, Pattern.search, rest?_opening, afterLastOpening?]
  | case2 c r rest h ih =>
    rw [hasOpening_of_opening h, Pattern.search, rest?_opening, h]
    rfl
  | case3 c r h ih =>
    rw [hasOpening_of_kept h, search_of_afterLastOpening?_eq_none h, ih, Option.isSome_map]

theorem search_opening_length_lt {s text rest : List Char}
    (h : Pattern.opening.search s = some (text, rest)) : rest.length < s.length := by
  induction s generalizing text with
  | nil => simp [Pattern.search, rest?_opening, afterLastOpening?] at h
  | cons c r ih =>
    rw [Pattern.search, rest?_opening] at h
    cases hc : afterLastOpening? (c :: r) with
    | some rest' =>
      obtain ⟨-, rfl⟩ : [] = text ∧ rest' = rest := by simpa [hc] using h
      exact length_lt_of_afterLastOpening? hc
    | none =>
      simp only [hc, Option.map_eq_some_iff, Prod.exists, Prod.mk.injEq] at h
      obtain ⟨text', rest', hr, -, rfl⟩ := h
      exact Nat.lt_succ_of_lt (ih hr)

/-- A text with every match of a pattern replaced: the texts between the matches, joined by the
replacement. -/
def Pattern.replaceAll (pattern : Pattern) (replacement s : List Char) : List Char :=
  replacement.intercalate (pattern.between s)

theorem registered_eq_replaceAll (path s : List Char) :
    registered path s = Pattern.opening.replaceAll (assignment path) s := by
  rw [Pattern.replaceAll]
  fun_induction Pattern.between Pattern.opening s with
  | case1 s h => rw [registered_eq_search, h, List.intercalate_singleton]
  | case2 s text rest h hlt ih =>
    rw [registered_eq_search, h, List.intercalate_cons_of_ne_nil (Pattern.between_ne_nil _ rest)]
    simp only [ih]
  | case3 s text rest h hlt => exact absurd (search_opening_length_lt h) hlt

/-- Registering a module puts the literal assignment in the place of every match of the opening's
pattern, in the order of a search from the start of the text, and reports whether the pattern
matches anywhere. The texts between the matches do not depend on the path. -/
theorem register_eq_replaceAll (content path : String) :
    (register content path).text =
        String.ofList
          (Pattern.opening.replaceAll (path ++ " = \x7b").toList content.toList) ∧
      ((register content path).matched = true ↔
        ∃ m, m <:+: content.toList ∧ Pattern.opening.Matches m) := by
  constructor
  · rw [register, registered_eq_replaceAll, assignment, String.toList_append]
  · rw [register, hasOpening_eq_isSome_search, Option.isSome_iff_ne_none, Ne,
      Pattern.search_eq_none_iff_matches]
    simp

end BehaviorRegistrar.Export
