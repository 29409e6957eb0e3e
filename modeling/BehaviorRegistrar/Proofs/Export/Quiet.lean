import BehaviorRegistrar.Proofs.Export.Spans

/-!
# Text in which no opening starts

`Quiet a b` says that no opening starts in `a` when `b` follows it. It holds of fixed text that a
look at its own characters settles, of words without keywords between separators, and of a whole
line, where what follows the line matters only as far as the gap after a keyword may reach into it.
Registration leaves quiet text: an assignment starts like no closing word, so a gap that ran into an
opening before runs into nothing after.
-/

namespace BehaviorRegistrar.Export

open Text

/-- No opening starts in `a` when `b` follows it. -/
inductive Quiet : List Char → List Char → Prop where
  | nil {b : List Char} : Quiet [] b
  | cons {c : Char} {a b : List Char} (head : afterOpening? (c :: (a ++ b)) = none)
      (tail : Quiet a b) : Quiet (c :: a) b

theorem quiet_cons {c : Char} {a b : List Char} :
    Quiet (c :: a) b ↔ afterOpening? (c :: (a ++ b)) = none ∧ Quiet a b := by
  constructor
  · rintro ⟨⟩
    exact ⟨‹_›, ‹_›⟩
  · rintro ⟨head, tail⟩
    exact .cons head tail

theorem quiet_append {a b c : List Char} :
    Quiet (a ++ b) c ↔ Quiet a (b ++ c) ∧ Quiet b c := by
  induction a with
  | nil => simp [Quiet.nil]
  | cons x a ih => simp only [List.cons_append, quiet_cons, ih, List.append_assoc, and_assoc]

theorem Quiet.afterOpening?_drop {a b : List Char} (h : Quiet a b) {k : ℕ} (hk : k < a.length) :
    afterOpening? (a.drop k ++ b) = none := by
  induction h generalizing k with
  | nil => simp at hk
  | cons head tail ih =>
    cases k with
    | zero => exact head
    | succ k => exact ih (Nat.lt_of_succ_lt_succ hk)

theorem Quiet.hasOpening_eq_false {s : List Char} (h : Quiet s []) : hasOpening s = false := by
  rw [Bool.eq_false_iff, Ne, hasOpening_iff_exists_viable]
  rintro ⟨k, hk⟩
  rw [viable_iff] at hk
  rcases lt_or_ge k s.length with hlt | hge
  · have hnone := h.afterOpening?_drop hlt
    rw [List.append_nil] at hnone
    exact hk hnone
  · rw [List.drop_of_length_le hge] at hk
    exact hk rfl

/-! ## Fixed text and inserted words -/

def mayOpen (t : List Char) : Bool :=
  keywords.any fun keyword => t.isPrefixOf keyword ||
    (keyword.isPrefixOf t &&
      closingWords.any fun closing =>
        ((t.drop keyword.length).dropWhile isGap).isPrefixOf closing ||
          closing.isPrefixOf ((t.drop keyword.length).dropWhile isGap))

/-- Whether no opening may start in a text, whatever follows it. -/
def isSettled : List Char → Bool
  | [] => true
  | c :: a => !mayOpen (c :: a) && isSettled a

theorem isPrefixOf_of_append_eq_append {a b c d : List Char} (h : a ++ b = c ++ d) :
    a.isPrefixOf c = true ∨ c.isPrefixOf a = true := by
  simp only [List.isPrefixOf_iff_prefix]
  have ha : a <+: a ++ b := ⟨b, rfl⟩
  exact List.prefix_or_prefix_of_prefix ha ⟨d, h.symm⟩

theorem dropWhile_append_of_ne_nil {p : Char → Bool} {t : List Char} (h : t.dropWhile p ≠ [])
    (b : List Char) : (t ++ b).dropWhile p = t.dropWhile p ++ b := by
  rw [List.dropWhile_append, List.isEmpty_eq_false_iff.2 h]
  rfl

theorem afterOpening?_append_of_not_mayOpen {t : List Char} (h : mayOpen t = false)
    (b : List Char) : afterOpening? (t ++ b) = none := by
  by_contra hsome
  obtain ⟨r, hr⟩ := Option.ne_none_iff_exists'.1 hsome
  obtain ⟨keyword, hkeyword, gap, hgap, closing, hclosing, x, ht, -⟩ :=
    afterOpening?_eq_some_iff.1 hr
  have hmay := List.any_eq_false.1 h keyword hkeyword
  simp only [Bool.or_eq_true, Bool.and_eq_true, List.any_eq_true, not_or, not_and, not_exists]
    at hmay
  obtain ⟨hshort, hlong⟩ := hmay
  have hprefix := (isPrefixOf_of_append_eq_append ht).resolve_left hshort
  obtain ⟨y, rfl⟩ := List.isPrefixOf_iff_prefix.1 hprefix
  rw [List.append_assoc, List.append_cancel_left_eq] at ht
  obtain ⟨hshort, hlong⟩ := hlong hprefix closing hclosing
  rw [List.drop_left] at hshort hlong
  have hne : y.dropWhile isGap ≠ [] := by
    intro hnil
    rw [hnil] at hshort
    exact hshort rfl
  have hdrop := congrArg (List.dropWhile isGap) ht
  rw [dropWhile_append_of_ne_nil hne, List.dropWhile_append_of_pos hgap,
    dropWhile_isGap_closing hclosing] at hdrop
  exact (isPrefixOf_of_append_eq_append hdrop).elim hshort hlong

theorem quiet_of_isSettled {a : List Char} (h : isSettled a = true) (b : List Char) :
    Quiet a b := by
  induction a with
  | nil => exact .nil
  | cons c a ih =>
    simp only [isSettled, Bool.and_eq_true, Bool.not_eq_true'] at h
    exact .cons (afterOpening?_append_of_not_mayOpen h.1 b) (ih h.2)

def isSeparating (c : Char) : Bool := keywords.all fun keyword => !keyword.contains c

/-- No opening starts in a word without keywords, when a separator follows. -/
theorem quiet_of_no_keyword {w : List Char} (h : ∀ keyword ∈ keywords, ¬keyword <:+: w) {c : Char}
    (hc : isSeparating c = true) (b : List Char) : Quiet w (c :: b) := by
  induction w with
  | nil => exact .nil
  | cons x w ih =>
    refine .cons ?_ (ih fun keyword hkeyword hw => h keyword hkeyword (List.infix_cons hw))
    by_contra hsome
    obtain ⟨r, hr⟩ := Option.ne_none_iff_exists'.1 hsome
    obtain ⟨keyword, hkeyword, gap, -, closing, -, y, ht, -⟩ := afterOpening?_eq_some_iff.1 hr
    rw [← List.cons_append] at ht
    rcases List.append_eq_append_iff.1 ht with ⟨u, hu, hy⟩ | ⟨u, hu, -⟩
    · cases u with
      | nil =>
        rw [List.append_nil] at hu
        exact h keyword hkeyword (hu ▸ List.infix_refl _)
      | cons d u =>
        obtain ⟨rfl, -⟩ := List.cons_eq_cons.1 hy
        have hnot := List.all_eq_true.1 hc keyword hkeyword
        simp [hu] at hnot
    · exact h keyword hkeyword ⟨[], u, by rw [hu, List.nil_append]⟩

/-- Fixed texts, each after an inserted word. -/
def fill (slots : List (List Char × List Char)) : List Char :=
  slots.flatMap fun slot => slot.1 ++ slot.2

def isSettledAfterWord : List Char → Bool
  | [] => false
  | c :: a => isSeparating c && isSettled (c :: a)

/-- Text made of settled fixed texts and of words without keywords is quiet. -/
theorem quiet_fill {slots : List (List Char × List Char)}
    (hwords : ∀ slot ∈ slots, ∀ keyword ∈ keywords, ¬keyword <:+: slot.1)
    (hfixed : ∀ slot ∈ slots, isSettledAfterWord slot.2 = true) (b : List Char) :
    Quiet (fill slots) b := by
  induction slots with
  | nil => exact .nil
  | cons slot rest ih =>
    obtain ⟨word, fixed⟩ := slot
    have hhead := hfixed _ List.mem_cons_self
    cases fixed with
    | nil => simp [isSettledAfterWord] at hhead
    | cons c fixed =>
      rw [isSettledAfterWord, Bool.and_eq_true] at hhead
      rw [fill, List.flatMap_cons, List.append_assoc, quiet_append, quiet_append]
      refine ⟨?_, quiet_of_isSettled hhead.2 _, ?_⟩
      · exact quiet_of_no_keyword (hwords _ List.mem_cons_self) hhead.1 _
      · exact ih (fun s hs => hwords s (List.mem_cons_of_mem _ hs))
          (fun s hs => hfixed s (List.mem_cons_of_mem _ hs))

/-! ## Lines -/

/-- A line ends between two texts: at the end of the first or at the start of the second. -/
def LineEndsBetween (a b : List Char) : Prop :=
  (∃ c, a.getLast? = some c ∧ isLineEnd c = true) ∨ ∀ c, b.head? = some c → isLineEnd c = true

theorem lineEndsBetween_nil {b : List Char} :
    LineEndsBetween [] b ↔ ∀ c, b.head? = some c → isLineEnd c = true := by
  simp [LineEndsBetween]

theorem LineEndsBetween.of_cons {c : Char} {a b : List Char} (h : LineEndsBetween (c :: a) b)
    (hc : isLineEnd c = false) : LineEndsBetween a b := by
  rcases h with ⟨d, hd, hend⟩ | h
  · cases a with
    | nil =>
      obtain rfl : c = d := by simpa using hd
      simp [hc] at hend
    | cons e a => exact .inl ⟨d, by simpa using hd, hend⟩
  · exact .inr h

theorem LineEndsBetween.of_append {u a b : List Char} (h : LineEndsBetween (u ++ a) b)
    (hu : ∀ c ∈ u, isLineEnd c = false) : LineEndsBetween a b := by
  induction u with
  | nil => exact h
  | cons c u ih =>
    exact ih (h.of_cons (hu c List.mem_cons_self)) fun d hd => hu d (List.mem_cons_of_mem _ hd)

/-- Where a line ends, a word without line ends is found on its line or not at all. -/
theorem after?_append {word a b : List Char} (hword : ∀ c ∈ word, isLineEnd c = false)
    (h : LineEndsBetween a b) : after? word (a ++ b) = (after? word a).map (· ++ b) := by
  induction word generalizing a with
  | nil => simp [after?]
  | cons x word ih =>
    have hx := hword x List.mem_cons_self
    cases a with
    | nil =>
      cases b with
      | nil => rfl
      | cons d b =>
        have hd := lineEndsBetween_nil.1 h d rfl
        have hne : x ≠ d := by rintro rfl; simp [hx] at hd
        simp [after?, hne]
    | cons c a =>
      by_cases hxc : x = c
      · subst hxc
        simp only [List.cons_append, after?, if_true]
        exact ih (fun c hc => hword c (List.mem_cons_of_mem _ hc)) (h.of_cons hx)
      · simp [after?, hxc]

theorem afterWord?_eq_map {words : List (List Char)} {s t : List Char} {f : List Char → List Char}
    (h : ∀ word ∈ words, after? word t = (after? word s).map f) :
    afterWord? words t = (afterWord? words s).map f := by
  induction words with
  | nil => rfl
  | cons word words ih =>
    obtain ⟨hword, hwords⟩ := List.forall_mem_cons.1 h
    have hrest := ih hwords
    rw [afterWord?, afterWord?] at hrest
    rw [afterWord?, afterWord?, List.findSome?_cons, List.findSome?_cons, hrest, hword]
    cases after? word s <;> rfl

theorem afterWord?_append {words : List (List Char)}
    (hwords : ∀ word ∈ words, ∀ c ∈ word, isLineEnd c = false) {a b : List Char}
    (h : LineEndsBetween a b) : afterWord? words (a ++ b) = (afterWord? words a).map (· ++ b) :=
  afterWord?_eq_map fun word hword => after?_append (hwords word hword) h

theorem afterLastBrace?_append {a b : List Char} (h : LineEndsBetween a b) :
    afterLastBrace? (a ++ b) = (afterLastBrace? a).map (· ++ b) := by
  induction a with
  | nil =>
    cases b with
    | nil => rfl
    | cons c b => simp [afterLastBrace?, lineEndsBetween_nil.1 h c rfl]
  | cons c a ih =>
    by_cases hc : isLineEnd c = true
    · simp [afterLastBrace?, hc]
    · have hrest := ih (h.of_cons (by simpa using hc))
      rw [List.cons_append, lastOnLine_afterLastBrace?.cons, lastOnLine_afterLastBrace?.cons,
        if_neg hc, if_neg hc, hrest]
      cases afterLastBrace? a with
      | some rest => rfl
      | none => by_cases hbrace : c = '{' <;> simp [afterBrace?, hbrace]

theorem isLineEnd_of_mem_keywords : ∀ word ∈ keywords, ∀ c ∈ word, isLineEnd c = false := by
  simp [keywords, isLineEnd]

theorem isLineEnd_of_mem_closingWords : ∀ word ∈ closingWords, ∀ c ∈ word, isLineEnd c = false := by
  simp [closingWords, isLineEnd]

theorem LineEndsBetween.of_afterWord? {words : List (List Char)}
    (hwords : ∀ word ∈ words, ∀ c ∈ word, isLineEnd c = false) {a b rest : List Char}
    (h : LineEndsBetween a b) (ha : afterWord? words a = some rest) : LineEndsBetween rest b := by
  obtain ⟨word, hword, rfl⟩ := afterWord?_eq_some ha
  exact h.of_append (hwords word hword)

/-- A gap that ends on its line is followed on that line by all that matters. -/
theorem afterGap?_append_of_gap_ends {a b : List Char} (h : LineEndsBetween a b)
    (hgap : a.dropWhile isGap ≠ []) : afterGap? (a ++ b) = (afterGap? a).map (· ++ b) := by
  have hdrop : LineEndsBetween (a.dropWhile isGap) b := by
    rcases h with ⟨c, hc, hend⟩ | h
    · refine .inl ⟨c, ?_, hend⟩
      rw [← hc, ← List.takeWhile_append_dropWhile (p := isGap) (l := a),
        List.getLast?_append_of_ne_nil _ hgap]
      simp
    · exact .inr h
  rw [afterGap?, afterGap?, dropWhile_append_of_ne_nil hgap,
    afterWord?_append isLineEnd_of_mem_closingWords hdrop]
  cases hrest : afterWord? closingWords (a.dropWhile isGap) with
  | none => rfl
  | some rest =>
    exact afterLastBrace?_append (hdrop.of_afterWord? isLineEnd_of_mem_closingWords hrest)

theorem afterGap?_append_of_all_gap {a : List Char} (hgap : a.dropWhile isGap = [])
    (b : List Char) : afterGap? (a ++ b) = afterGap? b := by
  rw [afterGap?, afterGap?, List.dropWhile_append, hgap]
  rfl

/-- After a line, one text may stand for another when a gap that runs into it does no more. -/
theorem afterGap?_append_eq_none {a b b' : List Char} (h : LineEndsBetween a b)
    (h' : LineEndsBetween a b') (hb : afterGap? b = none → afterGap? b' = none)
    (ha : afterGap? (a ++ b) = none) : afterGap? (a ++ b') = none := by
  rcases eq_or_ne (a.dropWhile isGap) [] with hgap | hgap
  · rw [afterGap?_append_of_all_gap hgap] at ha ⊢
    exact hb ha
  · rw [afterGap?_append_of_gap_ends h hgap, Option.map_eq_none_iff] at ha
    rw [afterGap?_append_of_gap_ends h' hgap, ha, Option.map_none]

theorem afterOpening?_append_eq_none {a b b' : List Char} (h : LineEndsBetween a b)
    (h' : LineEndsBetween a b') (hb : afterGap? b = none → afterGap? b' = none)
    (ha : afterOpening? (a ++ b) = none) : afterOpening? (a ++ b') = none := by
  rw [afterOpening?_eq, afterWord?_append isLineEnd_of_mem_keywords h] at ha
  rw [afterOpening?_eq, afterWord?_append isLineEnd_of_mem_keywords h']
  cases hrest : afterWord? keywords a with
  | none => rfl
  | some rest =>
    rw [hrest] at ha
    exact afterGap?_append_eq_none (h.of_afterWord? isLineEnd_of_mem_keywords hrest)
      (h'.of_afterWord? isLineEnd_of_mem_keywords hrest) hb ha

theorem LineEndsBetween.of_cons_of_ne_nil {c : Char} {a b : List Char}
    (h : LineEndsBetween (c :: a) b) (ha : a ≠ []) : LineEndsBetween a b := by
  rcases h with ⟨d, hd, hend⟩ | h
  · exact .inl ⟨d, by rwa [List.getLast?_cons_of_ne_nil ha] at hd, hend⟩
  · exact .inr h

theorem Quiet.of_gap {a b b' : List Char} (hq : Quiet a b) (h : LineEndsBetween a b)
    (h' : LineEndsBetween a b') (hb : afterGap? b = none → afterGap? b' = none) : Quiet a b' := by
  induction hq with
  | nil => exact .nil
  | @cons c a b head tail ih =>
    refine .cons (afterOpening?_append_eq_none h h' hb head) ?_
    rcases eq_or_ne a [] with rfl | hne
    · exact .nil
    · exact ih (h.of_cons_of_ne_nil hne) (h'.of_cons_of_ne_nil hne) hb

/-! ## Registered text -/

theorem quiet_line {s : List Char} (h : afterLastOpening? s = none) :
    Quiet (line s) (afterLine s) := by
  induction s with
  | nil => exact .nil
  | cons c r ih =>
    rw [line, afterLine]
    by_cases hc : isLineEnd c = true
    · rw [if_pos hc, if_pos hc]
      exact .cons (lastOnLine_afterLastOpening?.at_lineEnd c _ hc) .nil
    · rw [lastOnLine_afterLastOpening?.cons, if_neg hc, Option.or_eq_none_iff] at h
      rw [if_neg hc, if_neg hc]
      refine .cons ?_ (ih h.1)
      rw [line_append_afterLine]
      exact h.2

theorem lineEndsBetween_line {s b : List Char}
    (h : afterLine s = [] → ∀ c, b.head? = some c → isLineEnd c = true) :
    LineEndsBetween (line s) b := by
  rcases eq_or_ne (afterLine s) [] with hnil | hne
  · exact .inr (h hnil)
  · exact .inl (getLast?_line_of_afterLine_ne_nil hne)

section Registered

variable {path b : List Char} (hpath : ∀ x, afterGap? (assignment path ++ x) = none)
  (hgap : afterGap? b = none) (hend : ∀ c, b.head? = some c → isLineEnd c = true)

include hend in
theorem lineEndsBetween_line_registered (s : List Char) :
    LineEndsBetween (line s) (registered path (afterLine s) ++ b) := by
  refine lineEndsBetween_line fun hnil => ?_
  rw [hnil, registered_nil]
  exact hend

include hpath hgap hend in
/-- A gap that runs into no opening of a text runs into none of the registered text. -/
theorem afterGap?_registered (s : List Char) (h : afterGap? s = none) :
    afterGap? (registered path s ++ b) = none := by
  fun_induction scan s with
  | case1 =>
    rw [registered_nil]
    exact hgap
  | case2 c r rest hopening ih =>
    rw [registered_of_opening hopening, List.append_assoc]
    exact hpath _
  | case3 c r hkept ih =>
    rw [registered_of_kept hkept, List.append_assoc]
    rw [← line_append_afterLine (c :: r)] at h
    refine afterGap?_append_eq_none (lineEndsBetween_line fun hnil => ?_)
      (lineEndsBetween_line_registered hend (c :: r)) ih h
    simp [hnil]

include hpath hgap hend in
theorem quiet_registered (hquiet : ∀ x, Quiet (assignment path) x) (s : List Char) :
    Quiet (registered path s) b := by
  fun_induction scan s with
  | case1 =>
    rw [registered_nil]
    exact .nil
  | case2 c r rest hopening ih =>
    rw [registered_of_opening hopening, quiet_append]
    exact ⟨hquiet _, ih⟩
  | case3 c r hkept ih =>
    rw [registered_of_kept hkept, quiet_append]
    refine ⟨?_, ih⟩
    refine (quiet_line hkept).of_gap (lineEndsBetween_line fun hnil => ?_)
      (lineEndsBetween_line_registered hend (c :: r))
      (afterGap?_registered hpath hgap hend (afterLine (c :: r)))
    simp [hnil]

end Registered

end BehaviorRegistrar.Export
