import BehaviorRegistrar.Proofs.Export.Lines

/-!
# Registration in every style of line ends

A style of line ends writes each line end as some line ends, at least one, and leaves all other
characters alone. The words and braces of an opening hold no line end, and a gap may hold any number
of them, so a text in another style has its openings where it had them before: it does not matter
whether it is restyled before its registration or after it.
-/

namespace BehaviorRegistrar.Export

open Text

/-- A way to write line ends: what stands for each of them. -/
structure LineStyle where
  ends : Char → List Char
  ends_ne_nil : ∀ {c}, isLineEnd c = true → ends c ≠ []
  isLineEnd_of_mem : ∀ {c d}, isLineEnd c = true → d ∈ ends c → isLineEnd d = true

namespace LineStyle

def restyled (style : LineStyle) (s : List Char) : List Char :=
  s.flatMap fun c => if isLineEnd c then style.ends c else [c]

def restyle (style : LineStyle) (text : String) : String := .ofList (style.restyled text.toList)

variable (style : LineStyle) {c : Char} {s : List Char}

@[simp] theorem restyled_nil : style.restyled [] = [] := rfl

@[simp] theorem restyled_append (s r : List Char) :
    style.restyled (s ++ r) = style.restyled s ++ style.restyled r :=
  List.flatMap_append

theorem restyled_cons_of_isLineEnd (hc : isLineEnd c = true) (r : List Char) :
    style.restyled (c :: r) = style.ends c ++ style.restyled r := by
  rw [restyled, List.flatMap_cons, if_pos hc, restyled]

theorem restyled_cons_of_not_isLineEnd (hc : isLineEnd c = false) (r : List Char) :
    style.restyled (c :: r) = c :: style.restyled r := by
  rw [restyled, List.flatMap_cons, if_neg (by simp [hc]), restyled, List.singleton_append]

theorem restyled_of_no_lineEnd (hs : ∀ c ∈ s, isLineEnd c = false) : style.restyled s = s := by
  induction s with
  | nil => rfl
  | cons c s ih =>
    rw [style.restyled_cons_of_not_isLineEnd (hs c List.mem_cons_self),
      ih fun d hd => hs d (List.mem_cons_of_mem _ hd)]

theorem exists_ends_eq_cons (hc : isLineEnd c = true) :
    ∃ d ds, style.ends c = d :: ds ∧ isLineEnd d = true ∧ ∀ x ∈ ds, isLineEnd x = true := by
  obtain ⟨d, ds, hends⟩ := List.exists_cons_of_ne_nil (style.ends_ne_nil hc)
  have hmem : ∀ x ∈ d :: ds, isLineEnd x = true := by
    rw [← hends]
    exact fun x => style.isLineEnd_of_mem hc
  exact ⟨d, ds, hends, List.forall_mem_cons.1 hmem⟩

/-! ## Openings in another style -/

theorem after?_restyled {word : List Char} (hword : ∀ c ∈ word, isLineEnd c = false)
    (s : List Char) : after? word (style.restyled s) = (after? word s).map style.restyled := by
  induction word generalizing s with
  | nil => simp [after?]
  | cons w word ih =>
    obtain ⟨hw, hword⟩ := List.forall_mem_cons.1 hword
    cases s with
    | nil => rfl
    | cons c r =>
      by_cases hc : isLineEnd c = true
      · obtain ⟨d, ds, hends, hd, -⟩ := style.exists_ends_eq_cons hc
        have hwd : w ≠ d := by rintro rfl; simp [hw] at hd
        have hwc : w ≠ c := by rintro rfl; simp [hw] at hc
        rw [style.restyled_cons_of_isLineEnd hc, hends, List.cons_append, after?, after?,
          if_neg hwd, if_neg hwc, Option.map_none]
      · rw [style.restyled_cons_of_not_isLineEnd (by simpa using hc), after?, after?, ih hword]
        split <;> rfl

theorem afterWord?_restyled {words : List (List Char)}
    (hwords : ∀ word ∈ words, ∀ c ∈ word, isLineEnd c = false) (s : List Char) :
    afterWord? words (style.restyled s) = (afterWord? words s).map style.restyled :=
  afterWord?_eq_map fun word hword => style.after?_restyled (hwords word hword) s

/-- Line ends stand in gaps, so a gap ends where it ended before. -/
theorem dropWhile_isGap_restyled (s : List Char) :
    (style.restyled s).dropWhile isGap = style.restyled (s.dropWhile isGap) := by
  have hends : ∀ {c}, isLineEnd c = true → isGap c = true := fun hc => by
    rw [isGap, isBlank_of_isLineEnd hc, Bool.true_or]
  induction s with
  | nil => rfl
  | cons c r ih =>
    by_cases hc : isLineEnd c = true
    · rw [style.restyled_cons_of_isLineEnd hc, List.dropWhile_cons_of_pos (hends hc), ← ih]
      exact List.dropWhile_append_of_pos fun d hd => hends (style.isLineEnd_of_mem hc hd)
    · have hcons := style.restyled_cons_of_not_isLineEnd (by simpa using hc) r
      by_cases hgap : isGap c = true
      · rw [hcons, List.dropWhile_cons_of_pos hgap, List.dropWhile_cons_of_pos hgap, ih]
      · rw [hcons, List.dropWhile_cons_of_neg hgap, List.dropWhile_cons_of_neg hgap, hcons]

/-- A search along the line finds the same place in every style, if the test at a place does. -/
theorem lastOnLine_restyled {find at? : List Char → Option (List Char)} (h : LastOnLine find at?)
    (hat : ∀ s, at? (style.restyled s) = (at? s).map style.restyled) (s : List Char) :
    find (style.restyled s) = (find s).map style.restyled := by
  induction s with
  | nil => rw [restyled_nil, h.nil, Option.map_none]
  | cons c r ih =>
    have hcons := hat (c :: r)
    by_cases hc : isLineEnd c = true
    · obtain ⟨d, ds, hends, hd, -⟩ := style.exists_ends_eq_cons hc
      rw [style.restyled_cons_of_isLineEnd hc, hends, List.cons_append, h.cons, h.cons, if_pos hd,
        if_pos hc, Option.map_none]
    · rw [style.restyled_cons_of_not_isLineEnd (by simpa using hc)] at hcons ⊢
      rw [h.cons, h.cons, if_neg hc, if_neg hc, ih, hcons, Option.map_or]

theorem afterBrace?_restyled (s : List Char) :
    afterBrace? (style.restyled s) = (afterBrace? s).map style.restyled := by
  cases s with
  | nil => rfl
  | cons c r =>
    by_cases hc : isLineEnd c = true
    · obtain ⟨d, ds, hends, hd, -⟩ := style.exists_ends_eq_cons hc
      rw [style.restyled_cons_of_isLineEnd hc, hends, List.cons_append,
        lastOnLine_afterLastBrace?.at_lineEnd d _ hd, lastOnLine_afterLastBrace?.at_lineEnd c _ hc,
        Option.map_none]
    · rw [style.restyled_cons_of_not_isLineEnd (by simpa using hc), afterBrace?, afterBrace?]
      split <;> rfl

theorem afterOpening?_restyled (s : List Char) :
    afterOpening? (style.restyled s) = (afterOpening? s).map style.restyled := by
  have hgap : ∀ t, afterGap? (style.restyled t) = (afterGap? t).map style.restyled := by
    intro t
    rw [afterGap?, afterGap?, style.dropWhile_isGap_restyled,
      style.afterWord?_restyled isLineEnd_of_mem_closingWords]
    cases afterWord? closingWords (t.dropWhile isGap) with
    | none => rfl
    | some rest =>
      exact style.lastOnLine_restyled lastOnLine_afterLastBrace? style.afterBrace?_restyled rest
  rw [afterOpening?_eq, afterOpening?_eq, style.afterWord?_restyled isLineEnd_of_mem_keywords]
  cases afterWord? keywords s with
  | none => rfl
  | some rest => exact hgap rest

theorem afterLastOpening?_restyled (s : List Char) :
    afterLastOpening? (style.restyled s) = (afterLastOpening? s).map style.restyled :=
  style.lastOnLine_restyled lastOnLine_afterLastOpening? style.afterOpening?_restyled s

/-! ## Registration in another style -/

/-- Line ends in front of a text are kept. -/
theorem registered_append_of_lineEnds {u : List Char} (hu : ∀ c ∈ u, isLineEnd c = true)
    (path s : List Char) :
    registered path (u ++ s) = u ++ registered path s ∧ hasOpening (u ++ s) = hasOpening s := by
  induction u with
  | nil => exact ⟨rfl, rfl⟩
  | cons c u ih =>
    obtain ⟨hc, hu⟩ := List.forall_mem_cons.1 hu
    obtain ⟨hregistered, hopening⟩ := registered_cons_of_isLineEnd hc (u ++ s) path
    rw [List.cons_append, hregistered, hopening, (ih hu).1, (ih hu).2]
    exact ⟨rfl, rfl⟩

theorem restyled_assignment {path : List Char} (hpath : ∀ c ∈ path, isLineEnd c = false) :
    style.restyled (assignment path) = assignment path := by
  have hassigns : ∀ c ∈ " = \x7b".toList, isLineEnd c = false := by simp [isLineEnd]
  refine style.restyled_of_no_lineEnd fun c hc => ?_
  rcases List.mem_append.1 hc with hc | hc
  · exact hpath c hc
  · exact hassigns c hc

theorem registered_restyled {path : List Char} (hpath : ∀ c ∈ path, isLineEnd c = false)
    (s : List Char) :
    registered path (style.restyled s) = style.restyled (registered path s) ∧
      hasOpening (style.restyled s) = hasOpening s := by
  fun_induction scan s with
  | case1 => simp
  | case2 c r rest hopening ih =>
    have hrestyled := style.afterLastOpening?_restyled (c :: r)
    rw [hopening, Option.map_some] at hrestyled
    rw [registered_of_opening hrestyled, registered_of_opening hopening, ih.1, restyled_append,
      style.restyled_assignment hpath, hasOpening_of_opening hrestyled, hasOpening_of_opening hopening]
    exact ⟨rfl, rfl⟩
  | case3 c r hkept ih =>
    have hrestyled := style.afterLastOpening?_restyled (c :: r)
    rw [hkept, Option.map_none] at hrestyled
    generalize c :: r = s at hkept hrestyled ih ⊢
    rcases line_cases s with hline | ⟨body, d, rest, rfl, hbody, hd⟩
    · have hnone := hasOpening_of_kept_end hline hkept
      rw [style.restyled_of_no_lineEnd hline, registered_eq_self hnone,
        style.restyled_of_no_lineEnd hline]
      exact ⟨rfl, rfl⟩
    · obtain ⟨e, es, hends, he, hes⟩ := style.exists_ends_eq_cons hd
      have htext : style.restyled (body ++ d :: rest) = body ++ e :: (es ++ style.restyled rest) := by
        rw [restyled_append, style.restyled_of_no_lineEnd hbody, style.restyled_cons_of_isLineEnd hd,
          hends, List.cons_append]
      rw [htext] at hrestyled ⊢
      rw [afterLine_append hbody, afterLine_cons_of_isLineEnd hd] at ih
      obtain ⟨hregistered, hopening⟩ := registered_of_kept_line hd rest hbody hkept path
      obtain ⟨hregistered', hopening'⟩ := registered_of_kept_line he _ hbody hrestyled path
      obtain ⟨hends', hopening''⟩ := registered_append_of_lineEnds hes path (style.restyled rest)
      rw [hregistered', hopening', hends', hopening'', ih.1, ih.2, hregistered, hopening,
        restyled_append, style.restyled_of_no_lineEnd hbody, style.restyled_cons_of_isLineEnd hd,
        hends, List.cons_append]
      exact ⟨rfl, rfl⟩

def carriageReturns : LineStyle where
  ends c := if c = '\n' then ['\r', '\n'] else [c]
  ends_ne_nil _ := by split <;> simp
  isLineEnd_of_mem {c d} hc hd := by
    split at hd
    · rcases List.mem_pair.1 hd with rfl | rfl <;> rfl
    · rw [List.mem_singleton.1 hd]
      exact hc

end LineStyle

/-- Registration does not depend on the style of line ends: a restyled text is registered as the
restyled registered text, and something is replaced in both or in neither. -/
theorem register_restyle (style : LineStyle) (content : String) {path : String}
    (hpath : ∀ c ∈ path.toList, isLineEnd c = false) :
    register (style.restyle content) path =
      ⟨style.restyle (register content path).text, (register content path).matched⟩ := by
  obtain ⟨hregistered, hopening⟩ := style.registered_restyled hpath content.toList
  rw [register, register, LineStyle.restyle, LineStyle.restyle, String.toList_ofList,
    String.toList_ofList, hregistered, hopening]

/-- An opening whose gap holds two line ends. -/
theorem register_restyle_menu :
    let content := "a\nmodule\n\n.exports = \x7b\n\x7d"
    let path := "window.Drupal.behaviors.menu"
    (∀ c ∈ path.toList, isLineEnd c = false) ∧
      LineStyle.carriageReturns.restyle content = "a\r\nmodule\r\n\r\n.exports = \x7b\r\n\x7d" ∧
      register "a\r\nmodule\r\n\r\n.exports = \x7b\r\n\x7d" path =
        ⟨LineStyle.carriageReturns.restyle (register content path).text,
          (register content path).matched⟩ := by
  intro content path
  have hpath : ∀ c ∈ path.toList, isLineEnd c = false := by simp [path, isLineEnd]
  have hrestyle : LineStyle.carriageReturns.restyle content =
      "a\r\nmodule\r\n\r\n.exports = \x7b\r\n\x7d" := by decide
  exact ⟨hpath, hrestyle, hrestyle ▸ register_restyle LineStyle.carriageReturns content hpath⟩

end BehaviorRegistrar.Export
