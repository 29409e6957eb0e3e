import BehaviorRegistrar.Proofs.Export.Replacement
import Mathlib.Data.List.TakeWhile

/-!
# Openings by their places

An opening is described by the places of its parts in the whole text: where its keyword starts, where
its closing word ends, and a brace that stands on the line of the closing word. The functions that
work on the rest of a text are tied to this description: `afterOpening?` finds the last brace of the
line, `afterLastOpening?` the last opening that starts on a line.
-/

namespace BehaviorRegistrar.Export

open Text

def SameLine (s : List Char) (i j : ℕ) : Prop :=
  ∀ n c, i ≤ n → n < j → s[n]? = some c → isLineEnd c = false

/-- An opening whose keyword starts at `start` and whose closing word ends at `tail`, with a brace at
`brace` on the line of the closing word. -/
structure OpeningAt (s : List Char) (start tail brace : ℕ) : Prop where
  words : ∃ keyword ∈ keywords, ∃ gap, (∀ c ∈ gap, isGap c = true) ∧ ∃ closing ∈ closingWords,
    s.drop start = keyword ++ (gap ++ (closing ++ s.drop tail))
  le : tail ≤ brace
  opens : s[brace]? = some '{'
  sameLine : SameLine s tail brace

def Viable (s : List Char) (start : ℕ) : Prop := ∃ tail brace, OpeningAt s start tail brace

/-- Of the openings that start on the line of `i`, not before `i`, the last one, with the last brace
of the line of its closing word. -/
structure LastOpening (s : List Char) (i start tail brace : ℕ) : Prop where
  le : i ≤ start
  sameLine : SameLine s i start
  opening : OpeningAt s start tail brace
  last : ∀ later, start < later → SameLine s i later → ¬Viable s later
  lastBrace : ∀ b, brace < b → SameLine s tail b → s[b]? ≠ some '{'

theorem SameLine.mono {s : List Char} {i i' j j' : ℕ} (h : SameLine s i j) (hi : i ≤ i')
    (hj : j' ≤ j) : SameLine s i' j' :=
  fun _ c hin hnj => h _ c (hi.trans hin) (hnj.trans_le hj)

theorem SameLine.trans {s : List Char} {i j k : ℕ} (h : SameLine s i j) (h' : SameLine s j k) :
    SameLine s i k := by
  intro n c hin hnk
  rcases lt_or_ge n j with hnj | hjn
  · exact h n c hin hnj
  · exact h' n c hjn hnk

theorem SameLine.refl (s : List Char) (i : ℕ) : SameLine s i i :=
  fun _ _ hin hni => absurd hni (Nat.not_lt.2 hin)

theorem sameLine_zero_cons {c : Char} {r : List Char} {j : ℕ} :
    SameLine (c :: r) 0 (j + 1) ↔ isLineEnd c = false ∧ SameLine r 0 j := by
  constructor
  · intro h
    refine ⟨h 0 c (Nat.zero_le 0) (Nat.succ_pos j) rfl, fun n d _ hn hd => ?_⟩
    exact h (n + 1) d (Nat.zero_le _) (Nat.succ_lt_succ hn) (by simpa using hd)
  · rintro ⟨hc, hr⟩ n d - hn hd
    cases n with
    | zero =>
      obtain rfl : c = d := by simpa using hd
      exact hc
    | succ n => exact hr n d (Nat.zero_le n) (Nat.lt_of_succ_lt_succ hn) (by simpa using hd)

theorem sameLine_drop {s : List Char} {i j k : ℕ} :
    SameLine (s.drop i) j k ↔ SameLine s (i + j) (i + k) := by
  constructor
  · intro h n c hjn hnk hc
    obtain ⟨m, rfl⟩ := Nat.exists_eq_add_of_le (Nat.le_of_add_right_le hjn)
    exact h m c (Nat.le_of_add_le_add_left hjn) (Nat.lt_of_add_lt_add_left hnk)
      (by rw [List.getElem?_drop]; exact hc)
  · intro h n c hjn hnk hc
    exact h (i + n) c (Nat.add_le_add_left hjn i) (Nat.add_lt_add_left hnk i)
      (by rw [← List.getElem?_drop]; exact hc)

/-- A function that takes the last place of the line at which another one is defined, and nothing
when there is none. -/
structure LastOnLine (find at? : List Char → Option (List Char)) : Prop where
  nil : find [] = none
  cons : ∀ c r, find (c :: r) = if isLineEnd c then none else (find r).or (at? (c :: r))
  at_nil : at? [] = none
  at_lineEnd : ∀ c r, isLineEnd c = true → at? (c :: r) = none

namespace LastOnLine

variable {find at? : List Char → Option (List Char)}

theorem eq_none_iff (h : LastOnLine find at?) {t : List Char} :
    find t = none ↔ ∀ k, SameLine t 0 k → at? (t.drop k) = none := by
  induction t with
  | nil => simp [h.nil, h.at_nil]
  | cons c r ih =>
    rw [h.cons]
    by_cases hc : isLineEnd c = true
    · simp only [hc, if_true, true_iff]
      intro k hk
      cases k with
      | zero => exact h.at_lineEnd c r hc
      | succ k => simp [(sameLine_zero_cons.1 hk).1] at hc
    · simp only [hc, Bool.false_eq_true, if_false, Option.or_eq_none_iff, ih]
      constructor
      · rintro ⟨hr, h0⟩ k hk
        cases k with
        | zero => exact h0
        | succ k => exact hr k (sameLine_zero_cons.1 hk).2
      · intro hk
        refine ⟨fun k hr => ?_, hk 0 (SameLine.refl _ 0)⟩
        exact hk (k + 1) (sameLine_zero_cons.2 ⟨by simpa using hc, hr⟩)

theorem exists_of_eq_some (h : LastOnLine find at?) {t rest : List Char}
    (ht : find t = some rest) :
    ∃ k, SameLine t 0 k ∧ at? (t.drop k) = some rest ∧
      ∀ later, k < later → SameLine t 0 later → at? (t.drop later) = none := by
  induction t with
  | nil => simp [h.nil] at ht
  | cons c r ih =>
    rw [h.cons] at ht
    by_cases hc : isLineEnd c = true
    · simp [hc] at ht
    · cases hr : find r with
      | some found =>
        obtain rfl : found = rest := by simpa [hc, hr] using ht
        obtain ⟨k, hk, hat, hlater⟩ := ih hr
        refine ⟨k + 1, sameLine_zero_cons.2 ⟨by simpa using hc, hk⟩, hat, ?_⟩
        intro later hlt hline
        cases later with
        | zero => omega
        | succ later =>
          exact hlater later (Nat.lt_of_succ_lt_succ hlt) (sameLine_zero_cons.1 hline).2
      | none =>
        refine ⟨0, SameLine.refl _ 0, by simpa [hc, hr] using ht, ?_⟩
        intro later hlt hline
        cases later with
        | zero => omega
        | succ later => exact h.eq_none_iff.1 hr later (sameLine_zero_cons.1 hline).2

end LastOnLine

def afterBrace? : List Char → Option (List Char)
  | [] => none
  | c :: r => if c = '{' then some r else none

theorem afterBrace?_drop {s : List Char} {i : ℕ} {r : List Char} :
    afterBrace? (s.drop i) = some r ↔ s[i]? = some '{' ∧ r = s.drop (i + 1) := by
  rw [← List.head?_drop, ← List.tail_drop]
  cases s.drop i with
  | nil => simp [afterBrace?]
  | cons c t => by_cases h : c = '{' <;> simp [afterBrace?, h, eq_comm]

theorem afterBrace?_drop_eq_none {s : List Char} {i : ℕ} :
    afterBrace? (s.drop i) = none ↔ s[i]? ≠ some '{' := by
  rw [← List.head?_drop]
  cases s.drop i with
  | nil => simp [afterBrace?]
  | cons c t => by_cases h : c = '{' <;> simp [afterBrace?, h]

theorem lastOnLine_afterLastBrace? : LastOnLine afterLastBrace? afterBrace? where
  nil := rfl
  cons c r := by
    rw [afterLastBrace?]
    cases afterLastBrace? r <;> simp [afterBrace?]
  at_nil := rfl
  at_lineEnd c r hc := by
    have hbrace : c ≠ '{' := by rintro rfl; simp [isLineEnd] at hc
    simp [afterBrace?, hbrace]

theorem lastOnLine_afterLastOpening? : LastOnLine afterLastOpening? afterOpening? where
  nil := rfl
  cons c r := by
    rw [afterLastOpening?]
    cases afterLastOpening? r <;> simp
  at_nil := rfl
  at_lineEnd c r hc := by
    rw [afterOpening?_eq, afterWord?_keywords_of_isLineEnd hc, Option.bind_none]

theorem afterWord?_keywords_append {keyword : List Char} (h : keyword ∈ keywords) (x : List Char) :
    afterWord? keywords (keyword ++ x) = some x := by
  rcases List.mem_pair.1 h with rfl | rfl <;> simp [afterWord?, keywords, after?]

theorem afterWord?_closingWords_append {closing : List Char} (h : closing ∈ closingWords)
    (x : List Char) : afterWord? closingWords (closing ++ x) = some x := by
  rcases List.mem_pair.1 h with rfl | rfl <;> simp [afterWord?, closingWords, after?]

theorem dropWhile_isGap_closing {closing : List Char} (h : closing ∈ closingWords)
    (x : List Char) : (closing ++ x).dropWhile isGap = closing ++ x := by
  rcases List.mem_pair.1 h with rfl | rfl <;>
    exact List.dropWhile_cons_of_neg (by decide)

theorem afterGap?_append {gap closing : List Char} (hgap : ∀ c ∈ gap, isGap c = true)
    (h : closing ∈ closingWords) (x : List Char) :
    afterGap? (gap ++ (closing ++ x)) = afterLastBrace? x := by
  rw [afterGap?, List.dropWhile_append_of_pos hgap, dropWhile_isGap_closing h,
    afterWord?_closingWords_append h, Option.bind_some]

/-- The three parts before the last brace, as `afterOpening?` finds them. -/
theorem afterOpening?_eq_some_iff {t r : List Char} :
    afterOpening? t = some r ↔
      ∃ keyword ∈ keywords, ∃ gap, (∀ c ∈ gap, isGap c = true) ∧ ∃ closing ∈ closingWords,
        ∃ x, t = keyword ++ (gap ++ (closing ++ x)) ∧ afterLastBrace? x = some r := by
  constructor
  · intro h
    simp only [afterOpening?, Option.bind_eq_bind, Option.bind_eq_some_iff] at h
    obtain ⟨y, hy, x, hx, hr⟩ := h
    obtain ⟨keyword, hkeyword, rfl⟩ := afterWord?_eq_some hy
    obtain ⟨closing, hclosing, hx⟩ := afterWord?_eq_some hx
    refine ⟨keyword, hkeyword, y.takeWhile isGap, fun c hc => ?_, closing, hclosing, x, ?_, hr⟩
    · exact List.mem_takeWhile_imp hc
    · rw [← hx, List.takeWhile_append_dropWhile]
  · rintro ⟨keyword, hkeyword, gap, hgap, closing, hclosing, x, rfl, hr⟩
    rw [afterOpening?_eq, afterWord?_keywords_append hkeyword, Option.bind_some,
      afterGap?_append hgap hclosing, hr]

theorem drop_of_drop_eq_append {s u x : List Char} {k : ℕ} (h : s.drop k = u ++ x) :
    s.drop (k + u.length) = x := by
  rw [← List.drop_drop, h, List.drop_left]

/-- What `afterOpening?` leaves at a place follows the last brace of an opening there. -/
theorem afterOpening?_drop {s r : List Char} {k : ℕ} (h : afterOpening? (s.drop k) = some r) :
    ∃ tail brace, OpeningAt s k tail brace ∧ r = s.drop (brace + 1) ∧
      ∀ b, brace < b → SameLine s tail b → s[b]? ≠ some '{' := by
  obtain ⟨keyword, hkeyword, gap, hgap, closing, hclosing, x, hs, hr⟩ :=
    afterOpening?_eq_some_iff.1 h
  let tail := k + (keyword ++ (gap ++ closing)).length
  have htail : s.drop tail = x := drop_of_drop_eq_append (by simpa using hs)
  obtain ⟨b, hline, hat, hlater⟩ :=
    lastOnLine_afterLastBrace?.exists_of_eq_some (t := s.drop tail) (by rw [htail]; exact hr)
  rw [List.drop_drop, afterBrace?_drop] at hat
  rw [sameLine_drop] at hline
  refine ⟨tail, tail + b, ⟨?_, Nat.le_add_right _ _, hat.1, hline⟩, hat.2, ?_⟩
  · exact ⟨keyword, hkeyword, gap, hgap, closing, hclosing, by rw [htail]; exact hs⟩
  · intro later hlt hsame
    obtain ⟨n, rfl⟩ := Nat.exists_eq_add_of_le (le_of_lt (lt_of_le_of_lt (Nat.le_add_right _ b) hlt))
    have hnone := hlater n (by omega) (sameLine_drop.2 hsame)
    rwa [List.drop_drop, afterBrace?_drop_eq_none] at hnone

theorem viable_iff {s : List Char} {k : ℕ} : Viable s k ↔ afterOpening? (s.drop k) ≠ none := by
  constructor
  · rintro ⟨tail, brace, ⟨keyword, hkeyword, gap, hgap, closing, hclosing, hs⟩, hle, hbrace, hline⟩
    rw [hs, afterOpening?_eq, afterWord?_keywords_append hkeyword, Option.bind_some,
      afterGap?_append hgap hclosing, Ne, lastOnLine_afterLastBrace?.eq_none_iff]
    intro hnone
    obtain ⟨b, rfl⟩ := Nat.exists_eq_add_of_le hle
    have hb := hnone b (sameLine_drop.2 hline)
    rw [List.drop_drop, afterBrace?_drop_eq_none] at hb
    exact hb hbrace
  · intro h
    obtain ⟨r, hr⟩ := Option.ne_none_iff_exists'.1 h
    obtain ⟨tail, brace, hopening, -⟩ := afterOpening?_drop hr
    exact ⟨tail, brace, hopening⟩

/-- What `afterLastOpening?` leaves at a place follows the last opening of the line. -/
theorem afterLastOpening?_drop {s r : List Char} {i : ℕ}
    (h : afterLastOpening? (s.drop i) = some r) :
    ∃ start tail brace, LastOpening s i start tail brace ∧ r = s.drop (brace + 1) := by
  obtain ⟨k, hline, hat, hlater⟩ := lastOnLine_afterLastOpening?.exists_of_eq_some h
  rw [List.drop_drop] at hat
  obtain ⟨tail, brace, hopening, hr, hbrace⟩ := afterOpening?_drop hat
  refine ⟨i + k, tail, brace, ⟨Nat.le_add_right i k, sameLine_drop.1 hline, hopening, ?_, hbrace⟩, hr⟩
  intro later hlt hsame
  obtain ⟨n, rfl⟩ := Nat.exists_eq_add_of_le (le_of_lt (lt_of_le_of_lt (Nat.le_add_right i k) hlt))
  have hnone := hlater n (by omega) (sameLine_drop.2 hsame)
  rw [List.drop_drop] at hnone
  simp [viable_iff, hnone]

theorem not_viable_of_afterLastOpening?_drop {s : List Char} {i : ℕ}
    (h : afterLastOpening? (s.drop i) = none) {k : ℕ} (hik : i ≤ k) (hline : SameLine s i k) :
    ¬Viable s k := by
  obtain ⟨n, rfl⟩ := Nat.exists_eq_add_of_le hik
  have hnone := lastOnLine_afterLastOpening?.eq_none_iff.1 h n (sameLine_drop.2 hline)
  rw [List.drop_drop] at hnone
  simp [viable_iff, hnone]

end BehaviorRegistrar.Export
