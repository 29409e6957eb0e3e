import BehaviorRegistrar.Proofs.Export.Quiet

/-!
# Registration line by line

A text that ends where a line ends is registered on its own, whatever follows it, unless it dangles:
unless a keyword stands at its end with nothing but a gap behind it, so that an opening may go on in
the next line. The braces, the gaps that end and the stretch before a keyword all stay on one line.
-/

namespace BehaviorRegistrar.Export

open Text

/-- A keyword stands at the end of a text, with nothing but a gap behind it. -/
def Dangles (s : List Char) : Prop :=
  ∃ keyword ∈ keywords, ∃ gap, (∀ c ∈ gap, isGap c = true) ∧ keyword ++ gap <:+ s

theorem Dangles.of_suffix {s t : List Char} (h : Dangles s) (hs : s <:+ t) : Dangles t := by
  obtain ⟨keyword, hkeyword, gap, hgap, hend⟩ := h
  exact ⟨keyword, hkeyword, gap, hgap, hend.trans hs⟩

theorem dangles_iff {s : List Char} :
    Dangles s ↔ ∃ u ∈ s.tails, ∃ keyword ∈ keywords,
      keyword <+: u ∧ (u.drop keyword.length).all isGap = true := by
  simp only [List.mem_tails, List.all_eq_true]
  constructor
  · rintro ⟨keyword, hkeyword, gap, hgap, hend⟩
    exact ⟨keyword ++ gap, hend, keyword, hkeyword, List.prefix_append keyword gap, by simpa using hgap⟩
  · rintro ⟨u, hend, keyword, hkeyword, ⟨gap, rfl⟩, hgap⟩
    exact ⟨keyword, hkeyword, gap, by simpa using hgap, hend⟩

instance : DecidablePred Dangles := fun _ => decidable_of_iff _ dangles_iff.symm

/-! ## The first line of a text -/

section Line

variable {body s : List Char} (hbody : ∀ c ∈ body, isLineEnd c = false)

include hbody in
theorem line_append : line (body ++ s) = body ++ line s := by
  induction body with
  | nil => rfl
  | cons c body ih =>
    rw [List.cons_append, line, hbody c List.mem_cons_self, if_neg Bool.false_ne_true,
      ih fun d hd => hbody d (List.mem_cons_of_mem _ hd), List.cons_append]

include hbody in
theorem afterLine_append : afterLine (body ++ s) = afterLine s := by
  induction body with
  | nil => rfl
  | cons c body ih =>
    rw [List.cons_append, afterLine, hbody c List.mem_cons_self, if_neg Bool.false_ne_true,
      ih fun d hd => hbody d (List.mem_cons_of_mem _ hd)]

theorem line_cons_of_isLineEnd {c : Char} (h : isLineEnd c = true) (r : List Char) :
    line (c :: r) = [c] := by
  rw [line, if_pos h]

theorem afterLine_cons_of_isLineEnd {c : Char} (h : isLineEnd c = true) (r : List Char) :
    afterLine (c :: r) = r := by
  rw [afterLine, if_pos h]

/-- A text is one line without its end, or it has a first line end. -/
theorem line_cases (s : List Char) :
    (∀ c ∈ s, isLineEnd c = false) ∨
      ∃ body c r, s = body ++ c :: r ∧ (∀ d ∈ body, isLineEnd d = false) ∧ isLineEnd c = true := by
  induction s with
  | nil => simp
  | cons c r ih =>
    by_cases hc : isLineEnd c = true
    · exact .inr ⟨[], c, r, rfl, by simp, hc⟩
    · rw [Bool.not_eq_true] at hc
      rcases ih with hr | ⟨body, d, t, rfl, hbody, hd⟩
      · exact .inl (List.forall_mem_cons.2 ⟨hc, hr⟩)
      · exact .inr ⟨c :: body, d, t, rfl, List.forall_mem_cons.2 ⟨hc, hbody⟩, hd⟩

end Line

/-! ## Openings where a line ends -/

section LineEnd

variable {s : List Char} {t : Char} (ht : isLineEnd t = true) (b : List Char)

include ht in
theorem afterLastOpening?_of_isLineEnd : afterLastOpening? (t :: b) = none := by
  rw [afterLastOpening?, if_pos ht]

include ht in
theorem lineEndsBetween_of_isLineEnd (s : List Char) : LineEndsBetween s (t :: b) := by
  refine .inr fun c hc => ?_
  obtain rfl : t = c := by simpa using hc
  exact ht

include ht in
/-- An opening at the start of a text that does not dangle is settled by the text. -/
theorem afterOpening?_append (hs : ¬Dangles s) :
    afterOpening? (s ++ t :: b) = (afterOpening? s).map (· ++ t :: b) := by
  have h := lineEndsBetween_of_isLineEnd ht b s
  rw [afterOpening?_eq, afterOpening?_eq, afterWord?_append isLineEnd_of_mem_keywords h]
  cases hrest : afterWord? keywords s with
  | none => rfl
  | some rest =>
    refine afterGap?_append_of_gap_ends (h.of_afterWord? isLineEnd_of_mem_keywords hrest) ?_
    obtain ⟨keyword, hkeyword, rfl⟩ := afterWord?_eq_some hrest
    intro hgap
    rw [List.dropWhile_eq_nil_iff] at hgap
    exact hs ⟨keyword, hkeyword, rest, hgap, List.suffix_refl _⟩

include ht in
theorem afterLastOpening?_append (hs : ¬Dangles s) :
    afterLastOpening? (s ++ t :: b) = (afterLastOpening? s).map (· ++ t :: b) := by
  induction s with
  | nil => exact afterLastOpening?_of_isLineEnd ht b
  | cons c r ih =>
    have hr : ¬Dangles r := fun h => hs (h.of_suffix (List.suffix_cons c r))
    have hopening := afterOpening?_append ht b hs
    rw [List.cons_append] at hopening
    rw [List.cons_append, lastOnLine_afterLastOpening?.cons, lastOnLine_afterLastOpening?.cons,
      hopening, ih hr]
    by_cases hc : isLineEnd c = true
    · rw [if_pos hc, if_pos hc, Option.map_none]
    · rw [if_neg hc, if_neg hc, Option.map_or]

/-! ## Registration -/

section Kept

variable {body : List Char} (hbody : ∀ c ∈ body, isLineEnd c = false)

include ht hbody in
/-- A line in which no opening starts is kept, with the end of it. -/
theorem registered_of_kept_line (h : afterLastOpening? (body ++ t :: b) = none)
    (path : List Char) :
    registered path (body ++ t :: b) = body ++ t :: registered path b ∧
      hasOpening (body ++ t :: b) = hasOpening b := by
  rw [registered_of_kept h, hasOpening_of_kept h, line_append hbody, afterLine_append hbody,
    line_cons_of_isLineEnd ht, afterLine_cons_of_isLineEnd ht, List.append_assoc]
  exact ⟨rfl, rfl⟩

include hbody in
theorem hasOpening_of_kept_end (h : afterLastOpening? body = none) : hasOpening body = false := by
  have hend : afterLine (body ++ []) = [] := afterLine_append hbody
  rw [List.append_nil] at hend
  rw [hasOpening_of_kept h, hend, hasOpening, scan]
  rfl

end Kept

include ht in
theorem registered_cons_of_isLineEnd (path : List Char) :
    registered path (t :: b) = t :: registered path b ∧ hasOpening (t :: b) = hasOpening b := by
  have hbody : ∀ c ∈ ([] : List Char), isLineEnd c = false := nofun
  exact registered_of_kept_line ht b hbody (afterLastOpening?_of_isLineEnd ht b) path

include ht in
/-- What follows a line end is registered apart from a text before it that does not dangle. -/
theorem registered_append (path : List Char) (hs : ¬Dangles s) :
    registered path (s ++ t :: b) = registered path s ++ t :: registered path b ∧
      hasOpening (s ++ t :: b) = (hasOpening s || hasOpening b) := by
  fun_induction scan s with
  | case1 =>
    have hnone : hasOpening [] = false := hasOpening_of_kept_end (by simp) rfl
    rw [registered_nil, hnone, Bool.false_or]
    exact registered_cons_of_isLineEnd ht b path
  | case2 c r rest hopening ih =>
    have hboth := afterLastOpening?_append ht b hs
    rw [hopening, Option.map_some] at hboth
    obtain ⟨text, htext⟩ := afterLastOpening?_suffix hopening
    have hrest : ¬Dangles rest := fun h => hs (h.of_suffix ⟨text ++ ['{'], by simp [htext]⟩)
    obtain ⟨hregistered, -⟩ := ih hrest
    rw [registered_of_opening hboth, registered_of_opening hopening, hregistered,
      hasOpening_of_opening hboth, hasOpening_of_opening hopening, List.append_assoc]
    exact ⟨rfl, rfl⟩
  | case3 c r hkept ih =>
    have hboth := afterLastOpening?_append ht b hs
    rw [hkept, Option.map_none] at hboth
    generalize c :: r = s at hs hkept hboth ih ⊢
    rcases line_cases s with hline | ⟨body, d, rest, rfl, hbody, hd⟩
    · have hnone := hasOpening_of_kept_end hline hkept
      obtain ⟨hregistered, hopening⟩ := registered_of_kept_line ht b hline hboth path
      rw [hregistered, hopening, registered_eq_self hnone, hnone, Bool.false_or]
      exact ⟨rfl, rfl⟩
    · rw [afterLine_append hbody, afterLine_cons_of_isLineEnd hd] at ih
      rw [List.append_assoc, List.cons_append] at hboth ⊢
      have hrest : ¬Dangles rest := fun h => hs (h.of_suffix ⟨body ++ [d], by simp⟩)
      obtain ⟨hregistered, hopening⟩ := registered_of_kept_line hd rest hbody hkept path
      obtain ⟨hregistered', hopening'⟩ := registered_of_kept_line hd _ hbody hboth path
      rw [hregistered', hopening', (ih hrest).1, (ih hrest).2, hregistered, hopening,
        List.append_assoc, List.cons_append]
      exact ⟨rfl, rfl⟩

end LineEnd

/-- Two texts with a line end between them are registered each on its own, unless the first one
dangles. -/
theorem register_append_lineEnd {a : String} {t : Char} (ht : isLineEnd t = true)
    (ha : ¬Dangles a.toList) (b path : String) :
    register (a ++ String.singleton t ++ b) path =
      ⟨(register a path).text ++ String.singleton t ++ (register b path).text,
        (register a path).matched || (register b path).matched⟩ := by
  have htoList : (a ++ String.singleton t ++ b).toList = a.toList ++ t :: b.toList := by simp
  obtain ⟨hregistered, hopening⟩ := registered_append ht b.toList path.toList ha
  rw [register, htoList, hregistered, hopening, register, register, String.ofList_append,
    ← List.singleton_append, String.ofList_append, String.append_assoc]
  rfl

/-- The text ends with both words of an opening, so its last keyword does not dangle. -/
theorem register_append_lineEnd_menu :
    let a := "export default \x7b\n\x7d\nmodule.exports"
    isLineEnd '\u2028' = true ∧ ¬Dangles a.toList ∧
      ∀ b path, register (a ++ String.singleton '\u2028' ++ b) path =
        ⟨(register a path).text ++ String.singleton '\u2028' ++ (register b path).text,
          (register a path).matched || (register b path).matched⟩ := by
  intro a
  have hend : isLineEnd '\u2028' = true := by decide
  have hdangles : ¬Dangles a.toList := by decide
  exact ⟨hend, hdangles, register_append_lineEnd hend hdangles⟩

end BehaviorRegistrar.Export
