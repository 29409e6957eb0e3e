import BehaviorRegistrar.Proofs.Export.Places
import Mathlib.Data.List.Pairwise

/-!
# The spans that registration replaces

The openings that `scan` cuts out are given by their spans, from their first place up to the place
after their last. The invariant `SpansFrom` follows the scan: between two spans no opening starts,
and a span begins where the one before it ended or where a line begins. From it the spans are seen
to hold every opening of the text as a whole, and each of them exactly one last opening of its line.
-/

namespace BehaviorRegistrar.Export

open Text

def spansFrom : ℕ → List Piece → List (ℕ × ℕ)
  | _, [] => []
  | i, .kept text :: rest => spansFrom (i + text.length) rest
  | i, .opening text :: rest => (i, i + text.length) :: spansFrom (i + text.length) rest

def spans (s : List Char) : List (ℕ × ℕ) := spansFrom 0 (scan s)

def replaceFrom (replacement s : List Char) : ℕ → List (ℕ × ℕ) → List Char
  | p, [] => s.drop p
  | p, span :: rest =>
    (s.drop p).take (span.1 - p) ++ replacement ++ replaceFrom replacement s span.2 rest

def LineStart (s : List Char) (i : ℕ) : Prop :=
  i = 0 ∨ ∃ c, s[i - 1]? = some c ∧ isLineEnd c = true

/-- Spans found from the place `p` on, where the last span before them ended or the text begins. -/
inductive SpansFrom (s : List Char) : ℕ → List (ℕ × ℕ) → Prop where
  | done {p : ℕ} (h : ∀ k, p ≤ k → ¬Viable s k) : SpansFrom s p []
  | span {p i start tail brace : ℕ} {rest : List (ℕ × ℕ)} (hpi : p ≤ i)
      (hstart : i = p ∨ LineStart s i) (hbefore : ∀ k, p ≤ k → k < i → ¬Viable s k)
      (hlast : LastOpening s i start tail brace) (hrest : SpansFrom s (brace + 1) rest) :
      SpansFrom s p ((i, brace + 1) :: rest)

theorem drop_length_line (s : List Char) : s.drop (line s).length = afterLine s := by
  conv_lhs =>
    arg 2
    rw [← line_append_afterLine s]
  exact List.drop_left

theorem sameLine_of_lt_length_line {t : List Char} {k : ℕ} (h : k < (line t).length) :
    SameLine t 0 k := by
  induction t generalizing k with
  | nil => simp [line] at h
  | cons c r ih =>
    cases k with
    | zero => exact SameLine.refl _ 0
    | succ k =>
      by_cases hc : isLineEnd c = true
      · simp [line, hc] at h
      · refine sameLine_zero_cons.2 ⟨by simpa using hc, ih ?_⟩
        simpa [line, hc] using h

theorem getLast?_line_of_afterLine_ne_nil {t : List Char} (h : afterLine t ≠ []) :
    ∃ c, (line t).getLast? = some c ∧ isLineEnd c = true := by
  induction t with
  | nil => simp [afterLine] at h
  | cons c r ih =>
    by_cases hc : isLineEnd c = true
    · exact ⟨c, by simp [line, hc]⟩
    · obtain ⟨d, hd, hend⟩ := ih (by simpa [afterLine, hc] using h)
      refine ⟨d, ?_, hend⟩
      rw [line, if_neg hc, List.getLast?_cons, hd]
      rfl

theorem getElem?_of_getLast?_line {t : List Char} {c : Char} (h : (line t).getLast? = some c) :
    0 < (line t).length ∧ t[(line t).length - 1]? = some c := by
  rw [List.getLast?_eq_getElem?] at h
  have hlt := (List.getElem?_eq_some_iff.1 h).1
  have hleft : (line t ++ afterLine t)[(line t).length - 1]? = (line t)[(line t).length - 1]? :=
    List.getElem?_append_left hlt
  rw [line_append_afterLine] at hleft
  exact ⟨by omega, hleft.trans h⟩

theorem not_viable_of_drop_eq_nil {s : List Char} {i k : ℕ} (h : s.drop i = []) (hik : i ≤ k) :
    ¬Viable s k := by
  obtain ⟨n, rfl⟩ := Nat.exists_eq_add_of_le hik
  rw [viable_iff, ← List.drop_drop, h, List.drop_nil, not_not]
  rfl

/-- The scan of the text from `i` on finds the spans from there, when the last span ended at `p` and
only whole lines without openings stand in between. -/
theorem spansFrom_scan (s t : List Char) (p i : ℕ) (ht : s.drop i = t) (hpi : p ≤ i)
    (hstart : t = [] ∨ i = p ∨ LineStart s i) (hbefore : ∀ k, p ≤ k → k < i → ¬Viable s k) :
    SpansFrom s p (spansFrom i (scan t)) := by
  fun_induction scan t generalizing p i with
  | case1 =>
    refine .done fun k hpk => ?_
    rcases lt_or_ge k i with hki | hik
    · exact hbefore k hpk hki
    · exact not_viable_of_drop_eq_nil ht hik
  | case2 c r rest h ih =>
    obtain ⟨start, tail, brace, hlast, rfl⟩ := afterLastOpening?_drop (ht ▸ h)
    have hend : i + ((c :: r).take ((c :: r).length - (s.drop (brace + 1)).length)).length =
        brace + 1 := by
      have hlen := length_lt_of_afterLastOpening? h
      have hb := hlast.opening.le
      have hs := (List.getElem?_eq_some_iff.1 hlast.opening.opens).1
      rw [← ht] at hlen ⊢
      simp only [List.length_take, List.length_drop] at hlen ⊢
      omega
    rw [spansFrom, hend]
    refine .span hpi (hstart.resolve_left (by simp)) hbefore hlast ?_
    exact ih (brace + 1) (brace + 1) rfl le_rfl (.inr (.inl rfl)) fun k hk hlt => by omega
  | case3 c r h ih =>
    rw [spansFrom]
    have hdrop : s.drop (i + (line (c :: r)).length) = afterLine (c :: r) := by
      rw [← List.drop_drop, ht, drop_length_line]
    refine ih p _ hdrop (by omega) ?_ fun k hpk hk => ?_
    · rcases eq_or_ne (afterLine (c :: r)) [] with hnil | hne
      · exact .inl hnil
      · obtain ⟨d, hlast, hend⟩ := getLast?_line_of_afterLine_ne_nil hne
        obtain ⟨hpos, hd⟩ := getElem?_of_getLast?_line hlast
        refine .inr (.inr (.inr ⟨d, ?_, hend⟩))
        rw [← ht, List.getElem?_drop, ht] at hd
        rw [Nat.add_sub_assoc hpos]
        exact hd
    · rcases lt_or_ge k i with hki | hik
      · exact hbefore k hpk hki
      · refine not_viable_of_afterLastOpening?_drop (ht ▸ h) hik ?_
        obtain ⟨n, rfl⟩ := Nat.exists_eq_add_of_le hik
        have hline := sameLine_of_lt_length_line (Nat.lt_of_add_lt_add_left hk)
        rw [← ht] at hline
        exact sameLine_drop.1 hline

theorem spansFrom_spans (s : List Char) : SpansFrom s 0 (spans s) :=
  spansFrom_scan s s 0 0 rfl le_rfl (.inr (.inl rfl)) fun _ _ hk => absurd hk (Nat.not_lt_zero _)

/-- Replacing the openings among pieces is replacing the text in their spans. -/
theorem replaceFrom_spansFrom (path s : List Char) (pieces : List Piece) (p i : ℕ)
    (hs : s.drop i = pieces.flatMap Piece.text) (hpi : p ≤ i) :
    replaceFrom (assignment path) s p (spansFrom i pieces) =
      (s.drop p).take (i - p) ++ pieces.flatMap (Piece.registered path) := by
  induction pieces generalizing p i with
  | nil =>
    rw [spansFrom, replaceFrom, List.flatMap_nil, List.append_nil, List.take_of_length_le]
    have hlen := congrArg List.length hs
    simp only [List.length_drop, List.flatMap_nil, List.length_nil] at hlen ⊢
    omega
  | cons piece rest ih =>
    rw [List.flatMap_cons] at hs
    cases piece with
    | kept text =>
      have hrest := ih p (i + text.length) (drop_of_drop_eq_append hs) (by omega)
      rw [spansFrom, hrest, Nat.sub_add_comm hpi, List.take_add, List.drop_drop,
        Nat.add_sub_cancel' hpi, hs, Piece.text, List.take_left, List.append_assoc]
      rfl
    | opening text =>
      have hrest := ih (i + text.length) (i + text.length) (drop_of_drop_eq_append hs) le_rfl
      rw [Nat.sub_self, List.take_zero, List.nil_append] at hrest
      rw [spansFrom, replaceFrom, hrest, List.append_assoc]
      rfl

theorem registered_eq_replaceFrom (path s : List Char) :
    registered path s = replaceFrom (assignment path) s 0 (spans s) := by
  rw [spans, replaceFrom_spansFrom path s (scan s) 0 0 (flatMap_scan s).symm le_rfl]
  rfl

theorem hasOpening_eq_not_isEmpty_spans (s : List Char) :
    hasOpening s = !(spans s).isEmpty := by
  have hpieces : ∀ (pieces : List Piece) (i : ℕ),
      pieces.any Piece.isOpening = !(spansFrom i pieces).isEmpty := by
    intro pieces
    induction pieces with
    | nil => intro i; rfl
    | cons piece rest ih =>
      intro i
      cases piece with
      | kept text => exact ih _
      | opening text => rfl
  exact hpieces (scan s) 0

theorem brace_notMem_of_mem_keywords : ∀ keyword ∈ keywords, '{' ∉ keyword := by
  simp [keywords]

theorem brace_notMem_of_mem_closingWords : ∀ closing ∈ closingWords, '{' ∉ closing := by
  simp [closingWords]

theorem length_pos_of_mem_keywords : ∀ keyword ∈ keywords, 0 < keyword.length := by
  simp [keywords]

theorem OpeningAt.start_lt_brace {s : List Char} {start tail brace : ℕ}
    (h : OpeningAt s start tail brace) : start < brace := by
  obtain ⟨keyword, hkeyword, gap, -, closing, -, hs⟩ := h.words
  have hkey := length_pos_of_mem_keywords keyword hkeyword
  have hlt := (List.getElem?_eq_some_iff.1 h.opens).1
  have hle := h.le
  have hlen := congrArg List.length hs
  simp only [List.length_append, List.length_drop] at hlen
  omega

theorem OpeningAt.no_brace_in_words {s : List Char} {start tail brace n : ℕ}
    (h : OpeningAt s start tail brace) (hstart : start ≤ n) (htail : n < tail) :
    s[n]? ≠ some '{' := by
  obtain ⟨keyword, hkeyword, gap, hgap, closing, hclosing, hs⟩ := h.words
  rw [← List.append_assoc, ← List.append_assoc] at hs
  have hwords : '{' ∉ keyword ++ gap ++ closing := by
    simp only [List.mem_append, not_or]
    refine ⟨⟨brace_notMem_of_mem_keywords keyword hkeyword, fun hmem => ?_⟩,
      brace_notMem_of_mem_closingWords closing hclosing⟩
    exact absurd (hgap _ hmem) (by decide)
  have hlt := (List.getElem?_eq_some_iff.1 h.opens).1
  have hle := h.le
  have hlen := congrArg List.length hs
  simp only [List.length_append, List.length_drop] at hlen
  obtain ⟨m, rfl⟩ := Nat.exists_eq_add_of_le hstart
  rw [← List.getElem?_drop, hs, List.getElem?_append_left]
  · intro hbrace
    exact hwords (List.mem_of_getElem? hbrace)
  · simp only [List.length_append]
    omega

/-- Between the end of a last opening and the next line end there is no brace. -/
theorem LastOpening.no_brace_after {s : List Char} {i start tail brace b : ℕ}
    (h : LastOpening s i start tail brace) (hb : brace + 1 ≤ b) (hline : SameLine s (brace + 1) b) :
    s[b]? ≠ some '{' := by
  refine h.lastBrace b hb (h.opening.sameLine.trans fun n c hn hnb hc => ?_)
  rcases Nat.eq_or_lt_of_le hn with rfl | hn
  · obtain rfl : '{' = c := Option.some.inj (h.opening.opens.symm.trans hc)
    rfl
  · exact hline n c hn hnb hc

/-- An opening that starts before a last opening ends has no brace beyond it. -/
theorem LastOpening.brace_le {s : List Char} {i start tail brace start' tail' brace' : ℕ}
    (h : LastOpening s i start tail brace) (h' : OpeningAt s start' tail' brace')
    (hstart : start' ≤ brace) : brace' ≤ brace := by
  by_contra hlt
  have htail : tail' ≤ brace := by
    by_contra hbrace
    exact h'.no_brace_in_words hstart (Nat.lt_of_not_le hbrace) h.opening.opens
  exact h.no_brace_after (Nat.lt_of_not_le hlt)
    (h'.sameLine.mono (htail.trans (Nat.le_succ brace)) le_rfl) h'.opens

namespace SpansFrom

variable {s : List Char} {p : ℕ} {found : List (ℕ × ℕ)}

theorem exists_lastOpening (h : SpansFrom s p found) {span : ℕ × ℕ} (hmem : span ∈ found) :
    ∃ start tail brace, LastOpening s span.1 start tail brace ∧ span.2 = brace + 1 := by
  induction h with
  | done => simp at hmem
  | span hpi hstart hbefore hlast hrest ih =>
    rcases List.mem_cons.1 hmem with rfl | hmem
    · exact ⟨_, _, _, hlast, rfl⟩
    · exact ih hmem

theorem lt_of_mem (h : SpansFrom s p found) {span : ℕ × ℕ} (hmem : span ∈ found) :
    span.1 < span.2 := by
  obtain ⟨start, tail, brace, hlast, hend⟩ := h.exists_lastOpening hmem
  have hle := hlast.le
  have hlt := hlast.opening.start_lt_brace
  omega

theorem le_of_mem (h : SpansFrom s p found) {span : ℕ × ℕ} (hmem : span ∈ found) : p ≤ span.1 := by
  induction h with
  | done => simp at hmem
  | @span p i start tail brace rest hpi hstart hbefore hlast hrest ih =>
    rcases List.mem_cons.1 hmem with rfl | hmem
    · exact hpi
    · have hlt := (SpansFrom.span hpi hstart hbefore hlast hrest).lt_of_mem List.mem_cons_self
      exact (hpi.trans hlt.le).trans (ih hmem)

theorem pairwise (h : SpansFrom s p found) : found.Pairwise fun a b => a.2 ≤ b.1 := by
  induction h with
  | done => exact .nil
  | span hpi hstart hbefore hlast hrest ih => exact .cons (fun _ hmem => hrest.le_of_mem hmem) ih

/-- A span begins where a line begins or where the span before it ended. -/
theorem start_eq (h : SpansFrom s p found) {n : ℕ} {span : ℕ × ℕ} (hn : found[n]? = some span) :
    LineStart s span.1 ∨ (n = 0 ∧ span.1 = p) ∨
      ∃ m before, n = m + 1 ∧ found[m]? = some before ∧ span.1 = before.2 := by
  induction h generalizing n with
  | done => simp at hn
  | span hpi hstart hbefore hlast hrest ih =>
    cases n with
    | zero =>
      obtain rfl := Option.some.inj hn
      exact hstart.elim (fun hp => .inr (.inl ⟨rfl, hp⟩)) .inl
    | succ n =>
      rcases ih (by simpa using hn) with hline | ⟨rfl, hp⟩ | ⟨m, before, rfl, hm, hp⟩
      · exact .inl hline
      · exact .inr (.inr ⟨0, _, rfl, rfl, hp⟩)
      · exact .inr (.inr ⟨m + 1, before, rfl, by simpa using hm, hp⟩)

/-- Every opening lies in a span, from its keyword to any brace that makes it one. -/
theorem exists_span (h : SpansFrom s p found) {start tail brace : ℕ}
    (hopening : OpeningAt s start tail brace) (hp : p ≤ start) :
    ∃ span ∈ found, span.1 ≤ start ∧ brace < span.2 := by
  induction h with
  | done hnone => exact absurd ⟨tail, brace, hopening⟩ (hnone start hp)
  | @span p i start' tail' brace' rest hpi hstart hbefore hlast hrest ih =>
    rcases lt_or_ge start i with hlt | hge
    · exact absurd ⟨tail, brace, hopening⟩ (hbefore start hp hlt)
    · rcases lt_or_ge brace' start with hlt | hle
      · obtain ⟨span, hmem, hspan⟩ := ih hlt
        exact ⟨span, List.mem_cons_of_mem _ hmem, hspan⟩
      · exact ⟨_, List.mem_cons_self, hge, Nat.lt_succ_of_le (hlast.brace_le hopening hle)⟩

end SpansFrom

/-- Spans that share a place of the text are the same span. -/
theorem eq_of_mem_spans {s : List Char} {a b : ℕ × ℕ} {k : ℕ} (ha : a ∈ spans s) (hb : b ∈ spans s)
    (ha' : a.1 ≤ k ∧ k < a.2) (hb' : b.1 ≤ k ∧ k < b.2) : a = b := by
  by_contra hne
  have hdisjoint : (spans s).Pairwise fun a b => a.2 ≤ b.1 ∨ b.2 ≤ a.1 :=
    (spansFrom_spans s).pairwise.imp .inl
  have hsymm : Std.Symm fun a b : ℕ × ℕ => a.2 ≤ b.1 ∨ b.2 ≤ a.1 := ⟨fun _ _ => Or.symm⟩
  rcases hdisjoint.forall ha hb hne with h | h <;> omega

theorem hasOpening_iff_exists_viable (s : List Char) :
    hasOpening s = true ↔ ∃ start, Viable s start := by
  rw [hasOpening_eq_not_isEmpty_spans, Bool.not_eq_true', List.isEmpty_eq_false_iff]
  constructor
  · intro h
    obtain ⟨span, hmem⟩ := List.exists_mem_of_ne_nil _ h
    obtain ⟨start, tail, brace, hlast, -⟩ := (spansFrom_spans s).exists_lastOpening hmem
    exact ⟨start, tail, brace, hlast.opening⟩
  · rintro ⟨start, tail, brace, hopening⟩
    obtain ⟨span, hmem, -⟩ := (spansFrom_spans s).exists_span hopening (Nat.zero_le start)
    exact List.ne_nil_of_mem hmem

/-- Registration replaces the text in the spans and keeps all other text, and replaces something
exactly when an opening stands in the module. The spans follow each other. Each begins with its line
or at the end of the span before it, and ends after the last brace of the line on which the last
opening of its line is closed, so that no brace is left before that line ends. Every opening lies in
one span as a whole, and in no other span. -/
theorem register_eq_replace_spans (content path : String) :
    (register content path).text =
        String.ofList (replaceFrom (path ++ " = \x7b").toList content.toList 0
          (spans content.toList)) ∧
      ((register content path).matched = true ↔ ∃ start, Viable content.toList start) ∧
      (spans content.toList).Pairwise (fun a b => a.2 ≤ b.1) ∧
      (∀ n span, (spans content.toList)[n]? = some span →
        (LineStart content.toList span.1 ∨
          ∃ m before, n = m + 1 ∧ (spans content.toList)[m]? = some before ∧ span.1 = before.2) ∧
        (∃ start tail brace,
          LastOpening content.toList span.1 start tail brace ∧ span.2 = brace + 1) ∧
        ∀ b, span.2 ≤ b → SameLine content.toList span.2 b → content.toList[b]? ≠ some '{') ∧
      ∀ start tail brace, OpeningAt content.toList start tail brace →
        ∃ span ∈ spans content.toList, (span.1 ≤ start ∧ brace < span.2) ∧
          ∀ other ∈ spans content.toList, other.1 ≤ start → start < other.2 → other = span := by
  have hspans := spansFrom_spans content.toList
  refine ⟨?_, hasOpening_iff_exists_viable _, hspans.pairwise, ?_, ?_⟩
  · rw [register, registered_eq_replaceFrom, assignment, String.toList_append]
  · intro n span hn
    obtain ⟨start, tail, brace, hlast, hend⟩ := hspans.exists_lastOpening (List.mem_of_getElem? hn)
    refine ⟨?_, ⟨start, tail, brace, hlast, hend⟩, fun b hb hline => ?_⟩
    · rcases hspans.start_eq hn with hline | ⟨-, hzero⟩ | hbefore
      · exact .inl hline
      · exact .inl (.inl hzero)
      · exact .inr hbefore
    · rw [hend] at hb hline
      exact hlast.no_brace_after hb hline
  · intro start tail brace hopening
    obtain ⟨span, hmem, hle, hlt⟩ := hspans.exists_span hopening (Nat.zero_le start)
    refine ⟨span, hmem, ⟨hle, hlt⟩, fun other hother hole holt => ?_⟩
    refine eq_of_mem_spans hother hmem ⟨hole, holt⟩ ⟨hle, lt_of_le_of_lt ?_ hlt⟩
    exact hopening.start_lt_brace.le

end BehaviorRegistrar.Export
