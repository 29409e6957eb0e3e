import BehaviorRegistrar.Proofs.Json.ReadBack

/-!
# Readers are local

What a reader gives depends on the text that it takes and on nothing behind it. A number has to be told
from what follows it, though, so no digit, point or exponent may stand behind a value.
-/

namespace BehaviorRegistrar.Json

/-- Whether the text that is taken decides what is given, in front of every text that may follow. -/
def IsLocal {α : Type} (follows : List Char → Prop) (gives : List Char → α → List Char → Prop) : Prop :=
  ∀ s value rest, gives s value rest →
    ∃ taken, s = taken ++ rest ∧ ∀ next, follows next → gives (taken ++ next) value next

def Yields {α : Type} (reader : List Char → Except (Fault Cause) (α × List Char)) (s : List Char)
    (value : α) (rest : List Char) : Prop :=
  reader s = .ok (value, rest)

section Strings

theorem exists_of_fourHex? {s rest : List Char} {unit : Nat} (h : fourHex? s = some (unit, rest)) :
    ∃ digits, s = digits ++ rest ∧ ∀ next, fourHex? (digits ++ next) = some (unit, next) := by
  rcases s with _ | ⟨a, _ | ⟨b, _ | ⟨c, _ | ⟨d, s⟩⟩⟩⟩
  case cons.cons.cons.cons =>
    simp only [fourHex?, Option.bind_eq_bind, Option.bind_eq_some_iff, Option.pure_def,
      Option.some.injEq, Prod.mk.injEq] at h
    obtain ⟨w, ha, x, hb, y, hc, z, hd, rfl, rfl⟩ := h
    exact ⟨[a, b, c, d], rfl, fun next => by simp [fourHex?, ha, hb, hc, hd]⟩
  all_goals cases h

theorem isLocal_readUnit : IsLocal (fun _ => True) (Yields readUnit) := by
  intro s unit rest h
  rw [Yields, readUnit] at h
  split at h
  · rename_i found hfound
    obtain rfl : found = (unit, rest) := Except.ok.inj h
    obtain ⟨digits, rfl, hdigits⟩ := exists_of_fourHex? hfound
    exact ⟨digits, rfl, fun next _ => by rw [Yields, readUnit, hdigits]⟩
  · split at h <;> cases h

theorem isLocal_readPartner (high : Nat) : IsLocal (fun _ => True) (Yields (readPartner high)) := by
  intro s c rest h
  rw [Yields, readPartner.eq_def] at h
  split at h
  case h_3 t =>
    cases hunit : readUnit t with
    | error fault => simp [hunit, bind, Except.bind] at h
    | ok found =>
      obtain ⟨low, behind⟩ := found
      obtain ⟨taken, rfl, htaken⟩ := isLocal_readUnit t low behind hunit
      simp only [hunit, bind, Except.bind, pure, Except.pure] at h
      split at h
      · rename_i hlow
        obtain ⟨rfl, rfl⟩ := Prod.mk.inj (Except.ok.inj h)
        refine ⟨'\\' :: 'u' :: taken, rfl, fun next _ => ?_⟩
        have hnext : readUnit (taken ++ next) = .ok (low, next) := htaken next trivial
        simp only [Yields, List.cons_append, readPartner, hnext, bind, Except.bind, pure, Except.pure,
          if_pos hlow]
      · cases h
  all_goals cases h

theorem isLocal_readEscape : IsLocal (fun _ => True) (Yields readEscape) := by
  intro s c rest h
  rw [Yields, readEscape.eq_def] at h
  split at h
  case h_10 t =>
    cases hunit : readUnit t with
    | error fault => simp [hunit, bind, Except.bind] at h
    | ok found =>
      obtain ⟨unit, behind⟩ := found
      obtain ⟨taken, rfl, htaken⟩ := isLocal_readUnit t unit behind hunit
      simp only [hunit, bind, Except.bind, pure, Except.pure] at h
      split at h
      · cases h
      · rename_i hlow
        split at h
        · rename_i hhigh
          obtain ⟨more, rfl, hmore⟩ := isLocal_readPartner unit behind c rest h
          refine ⟨'u' :: (taken ++ more), by simp, fun next _ => ?_⟩
          have hunit : readUnit (taken ++ (more ++ next)) = .ok (unit, more ++ next) :=
            htaken (more ++ next) trivial
          simp only [Yields, List.cons_append, List.append_assoc, readEscape, hunit, bind, Except.bind,
            if_neg hlow, if_pos hhigh]
          exact hmore next trivial
        · rename_i hhigh
          obtain ⟨rfl, rfl⟩ := Prod.mk.inj (Except.ok.inj h)
          refine ⟨'u' :: taken, rfl, fun next _ => ?_⟩
          have hnext : readUnit (taken ++ next) = .ok (unit, next) := htaken next trivial
          simp only [Yields, List.cons_append, readEscape, hnext, bind, Except.bind, pure, Except.pure,
            if_neg hlow, if_neg hhigh]
  all_goals
    cases h
    try exact ⟨[_], rfl, fun next _ => rfl⟩

theorem isLocal_readString : IsLocal (fun _ => True) (Yields readString) := by
  intro s value rest h
  rw [Yields] at h
  fun_induction readString s generalizing value rest with
  | case1 => cases h
  | case2 t =>
    obtain ⟨rfl, rfl⟩ := Prod.mk.inj (Except.ok.inj h)
    exact ⟨['"'], rfl, fun next _ => by rw [Yields, List.singleton_append, readString, if_pos rfl]⟩
  | case3 t fault hescape _ => cases h
  | case4 t c behind hescape _ ih =>
    obtain ⟨⟨more, last⟩, hmore, hvalue⟩ := map_eq_ok_iff.1 h
    obtain ⟨rfl, rfl⟩ := Prod.mk.inj hvalue
    obtain ⟨first, rfl, hfirst⟩ := isLocal_readEscape t c behind hescape
    obtain ⟨second, rfl, hsecond⟩ := ih more last hmore
    refine ⟨'\\' :: (first ++ second), by simp, fun next _ => ?_⟩
    have hnext : readString (second ++ next) = .ok (more, next) := hsecond next trivial
    rw [Yields, List.cons_append, List.append_assoc,
      readString_escape (hfirst (second ++ next) trivial), hnext]
    rfl
  | case5 c t _ _ _ => cases h
  | case6 c t hquote hslash hvisible ih =>
    obtain ⟨⟨more, last⟩, hmore, hvalue⟩ := map_eq_ok_iff.1 h
    obtain ⟨rfl, rfl⟩ := Prod.mk.inj hvalue
    obtain ⟨taken, rfl, htaken⟩ := ih more last hmore
    refine ⟨c :: taken, rfl, fun next _ => ?_⟩
    have hnext : readString (taken ++ next) = .ok (more, next) := htaken next trivial
    rw [Yields, List.cons_append, readString_plain hquote hslash hvisible, hnext]
    rfl

end Strings

/-! ## Numbers -/

namespace Number

variable {negative down : Bool} {significand left : Nat} {exponent : Int}
  {c : Char} {digits taken s rest next : List Char} {value : Number}

theorem EndsDigits.replace (h : EndsDigits (taken ++ rest)) (hnext : EndsDigits next) :
    EndsDigits (taken ++ next) := by
  cases taken with
  | nil => exact hnext
  | cons c taken => exact h

theorem exists_digits (s : List Char) :
    ∃ digits rest, s = digits ++ rest ∧ (∀ c ∈ digits, c.isDigit) ∧ EndsDigits rest := by
  refine ⟨_, _, List.takeWhile_append_dropWhile.symm,
    fun c => List.mem_takeWhile_imp (p := Char.isDigit), ?_⟩
  intro c hc
  have hnot := List.head?_dropWhile_not Char.isDigit s
  rw [hc] at hnot
  exact hnot

theorem exponentOf_append (hdigits : ∀ c ∈ digits, c.isDigit) (hrest : EndsDigits rest) (n : Nat) :
    exponentOf n (digits ++ rest) = (exponentOf n digits).mapError (· ++ rest) := by
  induction digits generalizing n with
  | nil =>
    cases rest with
    | nil => rfl
    | cons c t => simp [exponentOf, hrest c rfl, Except.mapError]
  | cons c digits ih =>
    obtain ⟨hc, hdigits⟩ := List.forall_mem_cons.1 hdigits
    rw [List.cons_append, exponentOf, if_pos hc, exponentOf, if_pos hc]
    dsimp only
    split
    · rfl
    · exact ih hdigits _

/-- A double ends in front of any text as it ends in front of one. -/
theorem finish_next (h : finish negative significand exponent s = .ok (value, rest))
    (next : List Char) :
    finish negative significand exponent next = .ok (value, next) := by
  rw [finish] at h ⊢
  split at h
  · obtain ⟨rfl, -⟩ := Prod.mk.inj (Except.ok.inj h)
    rfl
  · cases h

theorem readExponentDigits_append (hdigits : ∀ d ∈ c :: digits, d.isDigit)
    (hrest : EndsDigits rest) :
    readExponentDigits negative significand exponent down (c :: digits ++ rest) =
      match exponentOf 0 (c :: digits) with
      | .ok value =>
        finish negative significand (if down then exponent - value else exponent + value) rest
      | .error behind =>
        if significand ≠ 0 ∧ down = false then .error (.here .numberOutOfRange (behind ++ rest))
        else .ok (signed negative 0, rest) := by
  have hexponent := exponentOf_append hdigits hrest 0
  obtain ⟨-, hdrop⟩ := takeWhile_isDigit hdigits hrest
  rw [List.cons_append] at hexponent hdrop ⊢
  rw [readExponentDigits, if_pos (hdigits c List.mem_cons_self), hexponent, hdrop]
  cases exponentOf 0 (c :: digits) <;> rfl

theorem isLocal_readExponentDigits :
    IsLocal EndsNumber (Yields (readExponentDigits negative significand exponent down)) := by
  intro s value rest h
  obtain ⟨digits, behind, rfl, hdigits, hbehind⟩ := exists_digits s
  rw [Yields] at h
  cases digits with
  | nil =>
    cases behind with
    | nil => cases h
    | cons c t =>
      rw [List.nil_append, readExponentDigits, if_neg (by simp [hbehind c rfl])] at h
      cases h
  | cons c digits =>
    rw [readExponentDigits_append hdigits hbehind] at h
    refine ⟨c :: digits, ?_, fun next hnext => ?_⟩
    · split at h
      · rw [eq_of_finish h]
      · split at h
        · cases h
        · rw [(Prod.mk.inj (Except.ok.inj h)).2]
    · rw [Yields, readExponentDigits_append hdigits (endsDigits_of_endsNumber hnext)]
      split at h
      · exact finish_next h next
      · split at h
        · cases h
        · rename_i hfits
          obtain ⟨rfl, -⟩ := Prod.mk.inj (Except.ok.inj h)
          exact if_neg hfits

theorem isLocal_readExponent :
    IsLocal EndsNumber (Yields (readExponent negative significand exponent)) := by
  intro s value rest h
  rw [Yields, readExponent.eq_def] at h
  split at h
  · obtain ⟨taken, rfl, htaken⟩ := isLocal_readExponentDigits _ value rest h
    exact ⟨'+' :: taken, rfl, htaken⟩
  · obtain ⟨taken, rfl, htaken⟩ := isLocal_readExponentDigits _ value rest h
    exact ⟨'-' :: taken, rfl, htaken⟩
  · rename_i hplus hminus
    obtain ⟨taken, rfl, htaken⟩ := isLocal_readExponentDigits s value rest h
    refine ⟨taken, rfl, fun next hnext => ?_⟩
    cases taken with
    | nil =>
      have hnone : readExponentDigits negative significand exponent false [] = .ok (value, []) :=
        htaken [] endsNumber_nil
      cases hnone
    | cons c taken =>
      rw [Yields, List.cons_append, readExponent]
      · exact htaken next hnext
      · exact fun r heq => hplus (taken ++ rest) (congrArg (· :: _) (List.cons.inj heq).1)
      · exact fun r heq => hminus (taken ++ rest) (congrArg (· :: _) (List.cons.inj heq).1)

theorem isLocal_readScale :
    IsLocal EndsNumber (Yields (readScale negative significand exponent)) := by
  intro s value rest h
  rw [Yields, readScale.eq_def] at h
  split at h
  · obtain ⟨taken, rfl, htaken⟩ := isLocal_readExponent _ value rest h
    exact ⟨'e' :: taken, rfl, htaken⟩
  · obtain ⟨taken, rfl, htaken⟩ := isLocal_readExponent _ value rest h
    exact ⟨'E' :: taken, rfl, htaken⟩
  · obtain rfl := eq_of_finish h
    refine ⟨[], rfl, fun next hnext => ?_⟩
    rw [Yields, List.nil_append, readScale]
    · exact finish_next h next
    · exact fun r heq => (hnext 'e' (by rw [heq]; rfl)).2.2.1 rfl
    · exact fun r heq => (hnext 'E' (by rw [heq]; rfl)).2.2.2 rfl

theorem readFraction_append (hdigits : ∀ d ∈ c :: digits, d.isDigit) (hrest : EndsDigits rest) :
    readFraction negative significand exponent (c :: digits ++ rest) =
      readScale negative (absorb significand (c :: digits)).1
        (exponent - ((c :: digits).length - (absorb significand (c :: digits)).2 : Nat)) rest := by
  obtain ⟨htake, hdrop⟩ := takeWhile_isDigit hdigits hrest
  rw [List.cons_append] at htake hdrop ⊢
  rw [readFraction, if_pos (hdigits c List.mem_cons_self), htake, hdrop]

theorem isLocal_readFraction :
    IsLocal EndsNumber (Yields (readFraction negative significand exponent)) := by
  intro s value rest h
  obtain ⟨digits, behind, rfl, hdigits, hbehind⟩ := exists_digits s
  rw [Yields] at h
  cases digits with
  | nil =>
    cases behind with
    | nil => cases h
    | cons c t =>
      rw [List.nil_append, readFraction, if_neg (by simp [hbehind c rfl])] at h
      cases h
  | cons c digits =>
    rw [readFraction_append hdigits hbehind] at h
    obtain ⟨taken, rfl, htaken⟩ := isLocal_readScale behind value rest h
    refine ⟨c :: digits ++ taken, by simp, fun next hnext => ?_⟩
    rw [Yields, List.append_assoc, readFraction_append hdigits
      (hbehind.replace (endsDigits_of_endsNumber hnext))]
    exact htaken next hnext

theorem isLocal_readTail : IsLocal EndsNumber (Yields (readTail negative significand left)) := by
  intro s value rest h
  rw [Yields, readTail.eq_def] at h
  split at h
  · obtain ⟨taken, rfl, htaken⟩ := isLocal_readFraction _ value rest h
    exact ⟨'.' :: taken, rfl, htaken⟩
  · obtain ⟨taken, rfl, htaken⟩ := isLocal_readExponent _ value rest h
    exact ⟨'e' :: taken, rfl, htaken⟩
  · obtain ⟨taken, rfl, htaken⟩ := isLocal_readExponent _ value rest h
    exact ⟨'E' :: taken, rfl, htaken⟩
  · have hend : ∀ next, EndsNumber next → readTail negative significand left next =
        if left = 0 then .ok (whole negative significand, next)
        else finish negative significand left next := by
      intro next hnext
      rw [readTail]
      · exact fun r heq => (hnext '.' (by rw [heq]; rfl)).2.1 rfl
      · exact fun r heq => (hnext 'e' (by rw [heq]; rfl)).2.2.1 rfl
      · exact fun r heq => (hnext 'E' (by rw [heq]; rfl)).2.2.2 rfl
    split at h
    · rename_i hleft
      obtain ⟨rfl, rfl⟩ := Prod.mk.inj (Except.ok.inj h)
      exact ⟨[], rfl, fun next hnext => (hend next hnext).trans (if_pos hleft)⟩
    · rename_i hleft
      obtain rfl := eq_of_finish h
      exact ⟨[], rfl, fun next hnext =>
        ((hend next hnext).trans (if_neg hleft)).trans (finish_next h next)⟩

theorem isLocal_readUnsigned : IsLocal EndsNumber (Yields (readUnsigned negative)) := by
  intro s value rest h
  obtain ⟨digits, behind, rfl, hdigits, hbehind⟩ := exists_digits s
  rw [Yields] at h
  cases digits with
  | nil =>
    cases behind with
    | nil => cases h
    | cons c t =>
      have hc := hbehind c rfl
      rw [List.nil_append, readUnsigned, if_neg (by simp [hc])] at h
      · cases h
      · rintro rfl
        cases hc
  | cons c digits =>
    by_cases hzero : c = '0'
    · subst hzero
      cases digits with
      | nil =>
        rw [List.singleton_append, readUnsigned_zero hbehind] at h
        obtain ⟨taken, rfl, htaken⟩ := isLocal_readTail behind value rest h
        refine ⟨'0' :: taken, rfl, fun next hnext => ?_⟩
        rw [Yields, List.cons_append,
          readUnsigned_zero (hbehind.replace (endsDigits_of_endsNumber hnext))]
        exact htaken next hnext
      | cons d digits =>
        have hfault : readUnsigned negative ('0' :: d :: digits ++ behind) =
          .error (.next .badNumber (d :: digits ++ behind)) := if_pos (hdigits d (by simp))
        rw [hfault] at h
        cases h
    · rw [readUnsigned_append hzero hdigits hbehind] at h
      obtain ⟨taken, rfl, htaken⟩ := isLocal_readTail behind value rest h
      refine ⟨c :: digits ++ taken, by simp, fun next hnext => ?_⟩
      rw [Yields, List.append_assoc, readUnsigned_append hzero hdigits
        (hbehind.replace (endsDigits_of_endsNumber hnext))]
      exact htaken next hnext

end Number

/-! ## Scalars -/

theorem isLocal_readLetters (value : Json) (word : List Char) :
    IsLocal (fun _ => True) (Yields (readLetters value word)) := by
  intro s found rest h
  obtain ⟨hfound, rfl⟩ := readLetters_eq_ok_iff.1 h
  exact ⟨word, rfl, fun next _ => readLetters_eq_ok_iff.2 ⟨hfound, rfl⟩⟩

theorem isLocal_readScalar : IsLocal EndsNumber (Yields readScalar) := by
  intro s value rest h
  rw [Yields, readScalar.eq_def] at h
  split at h
  · cases h
  · obtain ⟨taken, rfl, htaken⟩ := isLocal_readLetters _ _ _ value rest h
    exact ⟨'n' :: taken, rfl, fun next _ => htaken next trivial⟩
  · obtain ⟨taken, rfl, htaken⟩ := isLocal_readLetters _ _ _ value rest h
    exact ⟨'t' :: taken, rfl, fun next _ => htaken next trivial⟩
  · obtain ⟨taken, rfl, htaken⟩ := isLocal_readLetters _ _ _ value rest h
    exact ⟨'f' :: taken, rfl, fun next _ => htaken next trivial⟩
  · obtain ⟨⟨text, last⟩, htext, hvalue⟩ := map_eq_ok_iff.1 h
    obtain ⟨rfl, rfl⟩ := Prod.mk.inj hvalue
    obtain ⟨taken, rfl, htaken⟩ := isLocal_readString _ text last htext
    refine ⟨'"' :: taken, rfl, fun next _ => ?_⟩
    exact map_eq_ok_iff.2 ⟨(text, next), htaken next trivial, rfl⟩
  · obtain ⟨⟨number, last⟩, hnumber, hvalue⟩ := map_eq_ok_iff.1 h
    obtain ⟨rfl, rfl⟩ := Prod.mk.inj hvalue
    obtain ⟨taken, rfl, htaken⟩ := Number.isLocal_readUnsigned _ number last hnumber
    refine ⟨'-' :: taken, rfl, fun next hnext => ?_⟩
    exact map_eq_ok_iff.2 ⟨(number, next), htaken next hnext, rfl⟩
  · rename_i c t _ _ _ _ _
    split at h
    · rename_i hdigit
      obtain ⟨⟨number, last⟩, hnumber, hvalue⟩ := map_eq_ok_iff.1 h
      obtain ⟨rfl, rfl⟩ := Prod.mk.inj hvalue
      obtain ⟨taken, hs, htaken⟩ := Number.isLocal_readUnsigned _ number last hnumber
      cases taken with
      | nil =>
        have hlt := Number.length_of_readUnsigned hnumber
        rw [hs] at hlt
        exact absurd hlt (Nat.lt_irrefl _)
      | cons d taken =>
        obtain ⟨rfl, rfl⟩ := List.cons.inj hs
        refine ⟨c :: taken, rfl, fun next hnext => ?_⟩
        rw [Yields, List.cons_append, readScalar_digit hdigit]
        exact map_eq_ok_iff.2 ⟨(number, next), htaken next hnext, rfl⟩
    · cases h

/-! ## Values -/

/-- Readers of values: they are local, and behind the blanks they take something. -/
structure ReadsValues (item : (s : List Char) → Reading Json s) : Prop where
  isLocal : IsLocal EndsNumber (Gives item)
  length_lt : ∀ s value rest, Gives item s value rest → rest.length < (skip s).length

section Readers

variable {item : (s : List Char) → Reading Json s} {c : Char} {s r rest : List Char} {value : Json}
  {member : String × Json}

/-- What is taken for a value begins, behind its blanks, as the text does. -/
theorem ReadsValues.exists_taken (h : ReadsValues item) (hs : skip s = c :: r)
    (hvalue : Gives item s value rest) :
    ∃ taken more, s = taken ++ rest ∧ skip taken = c :: more ∧
      ∀ next, EndsNumber next → Gives item (taken ++ next) value next := by
  obtain ⟨taken, rfl, htaken⟩ := h.isLocal s value rest hvalue
  have hlt := h.length_lt _ value rest hvalue
  cases hskip : skip taken with
  | nil =>
    rw [skip_blanks_append hskip] at hlt
    exact absurd hlt (Nat.not_lt.2 (List.dropWhile_sublist _).length_le)
  | cons d more =>
    rw [skip_append_of_skip hskip] at hs
    obtain ⟨rfl, -⟩ := List.cons.inj hs
    exact ⟨taken, more, rfl, hskip, htaken⟩

theorem endsNumber_of_readMoreItems {values : List Json}
    (h : Gives (readMoreItems item) s values rest) : EndsNumber s := by
  rcases gives_readMoreItems_iff.1 h with ⟨hs, -⟩ | ⟨_, _, _, _, _, _, hs, -⟩
  all_goals exact endsNumber_of_skip hs (by decide)

theorem isLocal_readMoreItems (h : ReadsValues item) :
    IsLocal EndsNumber (Gives (readMoreItems item)) := by
  intro s values rest hvalues
  induction values generalizing s with
  | nil =>
    rcases gives_readMoreItems_iff.1 hvalues with ⟨hs, -⟩ | ⟨_, _, _, _, _, _, -, -, -, -, -, hcons⟩
    · obtain ⟨blanks, -, rfl, hskip⟩ := exists_blanks hs
      refine ⟨blanks ++ [']'], by simp, fun next _ => gives_readMoreItems_iff.2 (.inl ⟨?_, rfl⟩)⟩
      rw [List.append_assoc]
      exact hskip next
    · cases hcons
  | cons value values ih =>
    rcases gives_readMoreItems_iff.1 hvalues with
      ⟨-, hnil⟩ | ⟨r, c, t, _, mid, _, hs, hr, hc, hvalue, hmore, hcons⟩
    · cases hnil
    · obtain ⟨rfl, rfl⟩ := List.cons.inj hcons
      obtain ⟨blanks, -, rfl, hskip⟩ := exists_blanks hs
      obtain ⟨first, start, rfl, hstart, hfirst⟩ := h.exists_taken hr hvalue
      obtain ⟨second, rfl, hsecond⟩ := ih mid hmore
      refine ⟨blanks ++ ',' :: (first ++ second), by simp, fun next hnext => ?_⟩
      have hmore := hsecond next hnext
      refine gives_readMoreItems_iff.2 (.inr ⟨first ++ (second ++ next), c, _, value, second ++ next,
        values, ?_, skip_append_of_skip hstart _, hc, hfirst _ (endsNumber_of_readMoreItems hmore),
        hmore, rfl⟩)
      simpa using hskip (first ++ (second ++ next))

theorem isLocal_readItems (h : ReadsValues item) : IsLocal EndsNumber (Gives (readItems item)) := by
  intro s values rest hvalues
  rcases gives_readItems_iff.1 hvalues with
    ⟨hs, rfl⟩ | ⟨c, t, value, mid, more, hs, hc, hvalue, hmore, rfl⟩
  · obtain ⟨blanks, -, rfl, hskip⟩ := exists_blanks hs
    refine ⟨blanks ++ [']'], by simp, fun next _ => gives_readItems_iff.2 (.inl ⟨?_, rfl⟩)⟩
    rw [List.append_assoc]
    exact hskip next
  · obtain ⟨first, start, rfl, hstart, hfirst⟩ := h.exists_taken hs hvalue
    obtain ⟨second, rfl, hsecond⟩ := isLocal_readMoreItems h mid more rest hmore
    refine ⟨first ++ second, by simp, fun next hnext => ?_⟩
    have hmore := hsecond next hnext
    rw [List.append_assoc]
    exact gives_readItems_iff.2 (.inr ⟨c, _, value, second ++ next, more, skip_append_of_skip hstart _,
      hc, hfirst _ (endsNumber_of_readMoreItems hmore), hmore, rfl⟩)

theorem isLocal_readMember (h : IsLocal EndsNumber (Gives item)) :
    IsLocal EndsNumber (Gives (readMember item)) := by
  intro s member rest hmember
  obtain ⟨key, r, t, hkey, hr, hvalue, hname⟩ := gives_readMember_iff.1 hmember
  obtain ⟨name, rfl, hread⟩ := isLocal_readString s key r hkey
  obtain ⟨blanks, -, rfl, hskip⟩ := exists_blanks hr
  obtain ⟨taken, rfl, htaken⟩ := h t member.2 rest hvalue
  refine ⟨name ++ (blanks ++ ':' :: taken), by simp, fun next hnext => ?_⟩
  have hkey := hread (blanks ++ ':' :: (taken ++ next)) trivial
  rw [Yields] at hkey
  exact gives_readMember_iff.2 ⟨key, blanks ++ ':' :: (taken ++ next), taken ++ next,
    by simpa using hkey, hskip (taken ++ next), htaken next hnext, hname⟩

theorem endsNumber_of_readMoreMembers {members : List (String × Json)}
    (h : Gives (readMoreMembers item) s members rest) : EndsNumber s := by
  rcases gives_readMoreMembers_iff.1 h with ⟨hs, -⟩ | ⟨_, _, _, _, _, hs, -⟩
  all_goals exact endsNumber_of_skip hs (by decide)

theorem isLocal_readMoreMembers (h : IsLocal EndsNumber (Gives item)) :
    IsLocal EndsNumber (Gives (readMoreMembers item)) := by
  intro s members rest hmembers
  induction members generalizing s with
  | nil =>
    rcases gives_readMoreMembers_iff.1 hmembers with ⟨hs, -⟩ | ⟨_, _, _, _, _, -, -, -, -, hcons⟩
    · obtain ⟨blanks, -, rfl, hskip⟩ := exists_blanks hs
      refine ⟨blanks ++ ['}'], by simp, fun next _ => gives_readMoreMembers_iff.2 (.inl ⟨?_, rfl⟩)⟩
      rw [List.append_assoc]
      exact hskip next
    · cases hcons
  | cons member members ih =>
    rcases gives_readMoreMembers_iff.1 hmembers with
      ⟨-, hnil⟩ | ⟨r, t, _, mid, _, hs, hr, hmember, hmore, hcons⟩
    · cases hnil
    · obtain ⟨rfl, rfl⟩ := List.cons.inj hcons
      obtain ⟨before, -, rfl, hbefore⟩ := exists_blanks hs
      obtain ⟨blanks, -, rfl, hblanks⟩ := exists_blanks hr
      obtain ⟨first, rfl, hfirst⟩ := isLocal_readMember h t member mid hmember
      obtain ⟨second, rfl, hsecond⟩ := ih mid hmore
      refine ⟨before ++ ',' :: (blanks ++ '"' :: (first ++ second)), by simp, fun next hnext => ?_⟩
      have hmore := hsecond next hnext
      refine gives_readMoreMembers_iff.2 (.inr ⟨blanks ++ '"' :: (first ++ (second ++ next)), _, member,
        second ++ next, members, ?_, hblanks _, hfirst _ (endsNumber_of_readMoreMembers hmore), hmore,
        rfl⟩)
      simpa using hbefore (blanks ++ '"' :: (first ++ (second ++ next)))

theorem isLocal_readMembers (h : IsLocal EndsNumber (Gives item)) :
    IsLocal EndsNumber (Gives (readMembers item)) := by
  intro s members rest hmembers
  rcases gives_readMembers_iff.1 hmembers with
    ⟨hs, rfl⟩ | ⟨r, member, mid, more, hs, hmember, hmore, rfl⟩
  · obtain ⟨blanks, -, rfl, hskip⟩ := exists_blanks hs
    refine ⟨blanks ++ ['}'], by simp, fun next _ => gives_readMembers_iff.2 (.inl ⟨?_, rfl⟩)⟩
    rw [List.append_assoc]
    exact hskip next
  · obtain ⟨blanks, -, rfl, hblanks⟩ := exists_blanks hs
    obtain ⟨first, rfl, hfirst⟩ := isLocal_readMember h r member mid hmember
    obtain ⟨second, rfl, hsecond⟩ := isLocal_readMoreMembers h mid more rest hmore
    refine ⟨blanks ++ '"' :: (first ++ second), by simp, fun next hnext => ?_⟩
    have hmore := hsecond next hnext
    refine gives_readMembers_iff.2 (.inr ⟨first ++ (second ++ next), member, second ++ next, more, ?_,
      hfirst _ (endsNumber_of_readMoreMembers hmore), hmore, rfl⟩)
    simpa using hblanks (first ++ (second ++ next))

theorem readsValues_readWith {item? : Option ((s : List Char) → Reading Json s)}
    (h : ∀ item ∈ item?, ReadsValues item) : ReadsValues (readWith item?) := by
  constructor
  · intro s value rest hvalue
    rcases gives_readWith_iff.1 hvalue with ⟨item, r, items, hitem, hs, hitems, rfl⟩ |
      ⟨item, r, members, hitem, hs, hmembers, rfl⟩ | ⟨c, r, hs, hbracket, hbrace, hscalar⟩
    · obtain ⟨blanks, -, rfl, hblanks⟩ := exists_blanks hs
      obtain ⟨taken, rfl, htaken⟩ := isLocal_readItems (h item hitem) r items rest hitems
      refine ⟨blanks ++ '[' :: taken, by simp, fun next hnext => ?_⟩
      refine gives_readWith_iff.2 (.inl ⟨item, taken ++ next, items, hitem, ?_, htaken next hnext, rfl⟩)
      simpa using hblanks (taken ++ next)
    · obtain ⟨blanks, -, rfl, hblanks⟩ := exists_blanks hs
      obtain ⟨taken, rfl, htaken⟩ := isLocal_readMembers (h item hitem).isLocal r members rest hmembers
      refine ⟨blanks ++ '\x7b' :: taken, by simp, fun next hnext => ?_⟩
      refine gives_readWith_iff.2
        (.inr (.inl ⟨item, taken ++ next, members, hitem, ?_, htaken next hnext, rfl⟩))
      simpa using hblanks (taken ++ next)
    · obtain ⟨blanks, -, rfl, hblanks⟩ := exists_blanks hs
      obtain ⟨taken, hsplit, htaken⟩ := isLocal_readScalar (c :: r) value rest hscalar
      cases taken with
      | nil =>
        have hlt := length_of_readScalar hscalar
        rw [hsplit] at hlt
        exact absurd hlt (Nat.lt_irrefl _)
      | cons d taken =>
        obtain ⟨rfl, rfl⟩ := List.cons.inj hsplit
        refine ⟨blanks ++ c :: taken, by simp, fun next hnext => ?_⟩
        refine gives_readWith_iff.2
          (.inr (.inr ⟨c, taken ++ next, ?_, hbracket, hbrace, htaken next hnext⟩))
        simpa using hblanks (taken ++ next)
  · intro s value rest hvalue
    rcases gives_readWith_iff.1 hvalue with ⟨item, r, items, -, hs, hitems, -⟩ |
      ⟨item, r, members, -, hs, hmembers, -⟩ | ⟨c, r, hs, -, -, hscalar⟩
    · rw [hs]
      exact Nat.lt_succ_of_lt hitems.length_lt
    · rw [hs]
      exact Nat.lt_succ_of_lt hmembers.length_lt
    · rw [hs]
      exact length_of_readScalar hscalar

theorem readsValues_readNested (depth : Nat) : ReadsValues (readNested depth) := by
  induction depth with
  | zero => exact readsValues_readWith nofun
  | succ depth ih =>
    refine readsValues_readWith fun item hitem => ?_
    rw [← Option.some.inj hitem]
    exact ih

end Readers

end BehaviorRegistrar.Json
