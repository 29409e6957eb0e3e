import BehaviorRegistrar.Export.Pattern
import BehaviorRegistrar.Export.Registration
import Mathlib.Data.List.Infix

/-!
# Registration replaces the matches of the opening's pattern

What a pattern matches is stated on its own as `Pattern.Matches`, without an order of preference,
and `Pattern.rests` lists exactly what these matches leave. For the pattern `Pattern.opening` the
preferred match at a place is the one that `afterLastOpening?` finds there: the stretch before the
keyword is greedy, hence the last keyword of the line wins, no word starts like a gap goes on, hence
the gap never gives anything back, and the last stretch is greedy, hence the last brace ends the
match. The first place of a line matches whenever any place of the line does, so `scan` may go from
line to line where the search goes from place to place.
-/

namespace BehaviorRegistrar.Export

open Text

namespace Pattern

/-- The texts that a pattern matches, without regard to preference. -/
inductive Matches : Pattern → List Char → Prop where
  | one {accepts : Char → Bool} {c : Char} (h : accepts c = true) : Matches (.one accepts) [c]
  | sequence {first second : Pattern} {s t : List Char} (hs : Matches first s)
      (ht : Matches second t) : Matches (.sequence first second) (s ++ t)
  | left {left right : Pattern} {s : List Char} (h : Matches left s) :
      Matches (.choice left right) s
  | right {left right : Pattern} {s : List Char} (h : Matches right s) :
      Matches (.choice left right) s
  | done {body : Pattern} : Matches (.many body) []
  | more {body : Pattern} {s t : List Char} (hs : Matches body s) (ht : Matches (.many body) t) :
      Matches (.many body) (s ++ t)

theorem mem_rests_many {body : Pattern} {s r : List Char} :
    r ∈ rests (.many body) s ↔
      (∃ t ∈ rests body s, t.length < s.length ∧ r ∈ rests (.many body) t) ∨ r = s := by
  rw [rests]
  simp only [List.mem_append, List.mem_flatMap, List.mem_singleton]
  constructor
  · rintro (⟨t, ht, hr⟩ | hr)
    · split at hr
      · rename_i hlt
        exact .inl ⟨t, ht, hlt, hr⟩
      · simp at hr
    · exact .inr hr
  · rintro (⟨t, ht, hlt, hr⟩ | hr)
    · exact .inl ⟨t, ht, by simpa [hlt] using hr⟩
    · exact .inr hr

private theorem matches_of_mem_rests (pattern : Pattern) (s r : List Char)
    (h : r ∈ pattern.rests s) : ∃ m, s = m ++ r ∧ pattern.Matches m := by
  match pattern with
  | .one accepts =>
    cases s with
    | nil => simp [rests] at h
    | cons c t =>
      by_cases hc : accepts c = true
      · obtain rfl : r = t := by simpa [rests, hc] using h
        exact ⟨[c], rfl, .one hc⟩
      · simp [rests, hc] at h
  | .sequence first second =>
    rw [rests, List.mem_flatMap] at h
    obtain ⟨t, ht, hr⟩ := h
    obtain ⟨m, rfl, hm⟩ := matches_of_mem_rests first s t ht
    obtain ⟨n, rfl, hn⟩ := matches_of_mem_rests second t r hr
    exact ⟨m ++ n, (List.append_assoc m n r).symm, .sequence hm hn⟩
  | .choice left right =>
    rw [rests, List.mem_append] at h
    rcases h with h | h
    · obtain ⟨m, hs, hm⟩ := matches_of_mem_rests left s r h
      exact ⟨m, hs, .left hm⟩
    · obtain ⟨m, hs, hm⟩ := matches_of_mem_rests right s r h
      exact ⟨m, hs, .right hm⟩
  | .many body =>
    rcases mem_rests_many.1 h with ⟨t, ht, hlt, hr⟩ | rfl
    · obtain ⟨m, hs, hm⟩ := matches_of_mem_rests body s t ht
      obtain ⟨n, rfl, hn⟩ := matches_of_mem_rests (.many body) t r hr
      exact ⟨m ++ n, by rw [hs, List.append_assoc], .more hm hn⟩
    · exact ⟨[], rfl, .done⟩
termination_by (sizeOf pattern, s.length)

private theorem mem_rests_of_matches {pattern : Pattern} {m : List Char}
    (h : pattern.Matches m) (r : List Char) : r ∈ pattern.rests (m ++ r) := by
  induction h generalizing r with
  | one h => simp [rests, h]
  | sequence hs ht ihs iht =>
    rw [rests, List.mem_flatMap, List.append_assoc]
    exact ⟨_, ihs _, iht r⟩
  | left h ih =>
    rw [rests]
    exact List.mem_append_left _ (ih r)
  | right h ih =>
    rw [rests]
    exact List.mem_append_right _ (ih r)
  | done => exact mem_rests_many.2 (.inr rfl)
  | @more body s t hs ht ihs iht =>
    rcases eq_or_ne s [] with rfl | hne
    · exact iht r
    · rw [List.append_assoc]
      refine mem_rests_many.2 (.inl ⟨t ++ r, ihs _, ?_, iht r⟩)
      have hpos := List.length_pos_iff.2 hne
      simp only [List.length_append]
      omega

/-- The rests of a text are what is left of it by the matches at its start. -/
theorem mem_rests_iff {pattern : Pattern} {s r : List Char} :
    r ∈ pattern.rests s ↔ ∃ m, s = m ++ r ∧ pattern.Matches m := by
  constructor
  · exact matches_of_mem_rests pattern s r
  · rintro ⟨m, rfl, hm⟩
    exact mem_rests_of_matches hm r

theorem rest?_eq_none_iff {pattern : Pattern} {s : List Char} :
    pattern.rest? s = none ↔ ∀ m r, s = m ++ r → ¬pattern.Matches m := by
  rw [rest?, List.head?_eq_none_iff, List.eq_nil_iff_forall_not_mem]
  constructor
  · intro h m r hs hm
    exact h r (mem_rests_iff.2 ⟨m, hs, hm⟩)
  · intro h r hr
    obtain ⟨m, hs, hm⟩ := mem_rests_iff.1 hr
    exact h m r hs hm

theorem search_eq_none_iff {pattern : Pattern} {s : List Char} :
    pattern.search s = none ↔ ∀ t, t <:+ s → pattern.rest? t = none := by
  induction s with
  | nil => simp [search]
  | cons c r ih =>
    rw [search]
    cases h : pattern.rest? (c :: r) with
    | none =>
      simp only [Option.map_eq_none_iff, ih, List.suffix_cons_iff]
      constructor
      · rintro hr t (rfl | ht)
        · exact h
        · exact hr t ht
      · intro hr t ht
        exact hr t (.inr ht)
    | some rest =>
      simp only [reduceCtorEq, false_iff, not_forall]
      exact ⟨c :: r, List.suffix_refl _, by simp [h]⟩

/-- A search fails exactly when no stretch of the text is matched. -/
theorem search_eq_none_iff_matches {pattern : Pattern} {s : List Char} :
    pattern.search s = none ↔ ∀ m, m <:+: s → ¬pattern.Matches m := by
  rw [search_eq_none_iff]
  constructor
  · rintro h m ⟨before, after, rfl⟩
    exact rest?_eq_none_iff.1 (h (m ++ after) ⟨before, by simp⟩) m after rfl
  · rintro h t ⟨before, rfl⟩
    refine rest?_eq_none_iff.2 fun m r ht => h m ⟨before, r, ?_⟩
    rw [ht, List.append_assoc]

end Pattern

end BehaviorRegistrar.Export
