import BehaviorRegistrar.Proofs.Json.Printed
import BehaviorRegistrar.Proofs.Json.Readers

/-!
# Reading printed JSON

Reading takes from the front of a text exactly what printing a value put there, so a printed value is
read as it was. Numbers have to be integers of 64 bits, and no deeper nesting may be printed than is
read.
-/

namespace BehaviorRegistrar.Json

section Strings

variable {c : Char} {s r rest : List Char}

theorem readString_escape (h : readEscape r = .ok (c, rest)) :
    readString ('\\' :: r) = (readString rest).map fun found => (c :: found.1, found.2) := by
  rw [readString, if_neg (by decide), if_pos rfl]
  split
  · rename_i fault hfault
    rw [h] at hfault
    cases hfault
  · rename_i x t hread
    rw [h] at hread
    cases hread
    rfl

theorem readString_plain (hquote : c ≠ '"') (hslash : c ≠ '\\') (hvisible : ¬ c < ' ') :
    readString (c :: r) = (readString r).map fun found => (c :: found.1, found.2) := by
  rw [readString, if_neg hquote, if_neg hslash, if_neg hvisible]

theorem hexValue?_hexDigit : ∀ n < 16, hexValue? (hexDigit n) = some n := by decide

theorem readEscape_control (h : c < ' ') (r : List Char) :
    readEscape ('u' :: '0' :: '0' :: hexDigit (c.toNat / 16) :: hexDigit (c.toNat % 16) :: r) =
      .ok (c, r) := by
  have hsmall : c.toNat < 32 := h
  have hzero : hexValue? '0' = some 0 := by decide
  have hunit : readUnit ('0' :: '0' :: hexDigit (c.toNat / 16) :: hexDigit (c.toNat % 16) :: r) =
      .ok (c.toNat, r) := by
    have hvalue : ((0 * 16 + 0) * 16 + c.toNat / 16) * 16 + c.toNat % 16 = c.toNat := by omega
    simp only [readUnit, fourHex?, hzero, hexValue?_hexDigit (c.toNat / 16) (by omega),
      hexValue?_hexDigit (c.toNat % 16) (by omega), Option.bind_eq_bind, Option.bind_some, hvalue]
    rfl
  rw [readEscape]
  simp only [hunit]
  have hlow : ¬ (0xdc00 ≤ c.toNat ∧ c.toNat ≤ 0xdfff) := by omega
  have hhigh : ¬ (0xd800 ≤ c.toNat ∧ c.toNat ≤ 0xdbff) := by omega
  simp only [bind, Except.bind, if_neg hlow, if_neg hhigh, Char.ofNat_toNat]
  rfl

/-- A written character is read as that character. -/
theorem readString_writtenChar (c : Char) (r : List Char) :
    readString (writtenChar c ++ r) = (readString r).map fun found => (c :: found.1, found.2) := by
  fun_cases writtenChar c
  case case8 hcontrol => exact readString_escape (readEscape_control hcontrol r)
  case case9 => exact readString_plain ‹_› ‹_› ‹_›
  all_goals
    subst c
    exact readString_escape rfl

theorem readString_written (s r : List Char) :
    readString (s.flatMap writtenChar ++ '"' :: r) = .ok (s, r) := by
  induction s with
  | nil => rw [List.flatMap_nil, List.nil_append, readString, if_pos rfl]
  | cons c s ih =>
    rw [List.flatMap_cons, List.append_assoc, readString_writtenChar, ih]
    rfl

end Strings

def EndsNumber (s : List Char) : Prop :=
  ∀ c ∈ s.head?, c.isDigit = false ∧ c ≠ '.' ∧ c ≠ 'e' ∧ c ≠ 'E'

namespace Number

/-- Whether a number is an integer of 64 bits, signed or not. -/
def Is64 : Number → Prop
  | .integer value => -(negativeLimit : Int) ≤ value ∧ value < significandLimit
  | .double _ => False

variable {c : Char} {digits rest : List Char} {significand n : Nat}

theorem le_ofDigitChars (significand : Nat) (digits : List Char) :
    significand ≤ Nat.ofDigitChars 10 digits significand := by
  induction digits generalizing significand with
  | nil => simp
  | cons c digits ih =>
    rw [Nat.ofDigitChars_cons]
    exact le_trans (by omega) (ih (10 * significand + (c.toNat - '0'.toNat)))

/-- Digits that fit are all taken. -/
theorem absorb_eq (h : Nat.ofDigitChars 10 digits significand < significandLimit) :
    absorb significand digits = (Nat.ofDigitChars 10 digits significand, 0) := by
  induction digits generalizing significand with
  | nil => simp [absorb]
  | cons c digits ih =>
    rw [Nat.ofDigitChars_cons, Nat.mul_comm] at h ⊢
    rw [absorb, if_pos (lt_of_le_of_lt (le_ofDigitChars _ digits) h)]
    exact ih h

def EndsDigits (s : List Char) : Prop := ∀ c ∈ s.head?, c.isDigit = false

theorem endsDigits_of_endsNumber (h : EndsNumber rest) : EndsDigits rest :=
  fun c hc => (h c hc).1

theorem takeWhile_isDigit (h : ∀ c ∈ digits, c.isDigit) (hrest : EndsDigits rest) :
    (digits ++ rest).takeWhile Char.isDigit = digits ∧
      (digits ++ rest).dropWhile Char.isDigit = rest := by
  have hstop : rest.takeWhile Char.isDigit = [] ∧ rest.dropWhile Char.isDigit = rest := by
    cases rest with
    | nil => simp
    | cons c t => simp [hrest c rfl]
  rw [List.takeWhile_append_of_pos h, List.dropWhile_append_of_pos h, hstop.1, hstop.2]
  simp

/-- Only zero is written with a zero in front. -/
theorem toDigits_cases (n : Nat) :
    n = 0 ∧ Nat.toDigits 10 n = ['0'] ∨
      ∃ c digits, Nat.toDigits 10 n = c :: digits ∧ c ≠ '0' := by
  induction n using Nat.strongRecOn with
  | ind n ih =>
    by_cases hsmall : n < 10
    · rw [Nat.toDigits_of_lt_base hsmall]
      by_cases hzero : n = 0
      · exact .inl ⟨hzero, by rw [hzero]; rfl⟩
      · refine .inr ⟨_, [], rfl, fun hdigit => hzero ?_⟩
        have hvalue := Nat.toNat_digitChar_sub_48_of_lt_ten hsmall
        rw [hdigit] at hvalue
        exact hvalue.symm
    · rw [Nat.toDigits_of_base_le (by omega) (by omega)]
      rcases ih (n / 10) (by omega) with ⟨hzero, -⟩ | ⟨c, digits, hdigits, hc⟩
      · omega
      · exact .inr ⟨c, digits ++ [(n % 10).digitChar], by rw [hdigits]; rfl, hc⟩

theorem readTail_end (hrest : EndsNumber rest) (negative : Bool) :
    readTail negative significand 0 rest = .ok (whole negative significand, rest) := by
  rw [readTail.eq_def]
  split
  · exact absurd rfl (hrest '.' rfl).2.1
  · exact absurd rfl (hrest 'e' rfl).2.2.1
  · exact absurd rfl (hrest 'E' rfl).2.2.2
  · rfl

theorem readUnsigned_zero (hrest : EndsDigits rest) (negative : Bool) :
    readUnsigned negative ('0' :: rest) = readTail negative 0 0 rest := by
  rw [readUnsigned.eq_def]
  cases rest with
  | nil => rfl
  | cons c t => simp [hrest c rfl]

/-- A number without a zero in front is read from its digits and what follows them. -/
theorem readUnsigned_append (hzero : c ≠ '0') (hdigits : ∀ d ∈ c :: digits, d.isDigit)
    (hrest : EndsDigits rest) (negative : Bool) :
    readUnsigned negative (c :: digits ++ rest) =
      readTail negative (absorb 0 (c :: digits)).1 (absorb 0 (c :: digits)).2 rest := by
  obtain ⟨htake, hdrop⟩ := takeWhile_isDigit hdigits hrest
  rw [List.cons_append] at htake hdrop ⊢
  rw [readUnsigned, if_pos (hdigits c List.mem_cons_self), htake, hdrop]
  exact hzero

theorem readUnsigned_toDigits (hn : n < significandLimit) (hrest : EndsNumber rest) (negative : Bool) :
    readUnsigned negative (Nat.toDigits 10 n ++ rest) = .ok (whole negative n, rest) := by
  have hend := endsDigits_of_endsNumber hrest
  rcases toDigits_cases n with ⟨rfl, hdigits⟩ | ⟨c, digits, hdigits, hc⟩
  · rw [hdigits, List.singleton_append, readUnsigned_zero hend]
    exact readTail_end hrest negative
  · have hall : ∀ d ∈ Nat.toDigits 10 n, d.isDigit :=
      fun d => Nat.isDigit_of_mem_toDigits (by decide) (by decide)
    have habsorb : absorb 0 (Nat.toDigits 10 n) = (n, 0) := by
      rw [absorb_eq (by rwa [Nat.ofDigitChars_ten_toDigits]), Nat.ofDigitChars_ten_toDigits]
    rw [hdigits] at hall habsorb ⊢
    rw [readUnsigned_append hc hall hend, habsorb]
    exact readTail_end hrest negative

end Number

theorem endsNumber_cons {c : Char}
    (h : c.isDigit = false ∧ c ≠ '.' ∧ c ≠ 'e' ∧ c ≠ 'E') (s : List Char) : EndsNumber (c :: s) := by
  intro d hd
  rw [← Option.some.inj hd]
  exact h

theorem endsNumber_nil : EndsNumber [] := by simp [EndsNumber]

theorem endsNumber_blanks {blanks s : List Char} (h : skip blanks = []) (hs : EndsNumber s) :
    EndsNumber (blanks ++ s) := by
  cases blanks with
  | nil => exact hs
  | cons b blanks =>
    have hspace : isSpace b = true := List.dropWhile_eq_nil_iff.1 h b List.mem_cons_self
    simp only [isSpace, Bool.or_eq_true, beq_iff_eq] at hspace
    refine endsNumber_cons ?_ _
    rcases hspace with ((rfl | rfl) | rfl) | rfl <;> decide

theorem endsNumber_of_skip {c : Char} {s rest : List Char} (h : skip s = c :: rest)
    (hc : c.isDigit = false ∧ c ≠ '.' ∧ c ≠ 'e' ∧ c ≠ 'E') : EndsNumber s := by
  obtain ⟨blanks, hblanks, rfl, -⟩ := exists_blanks h
  exact endsNumber_blanks hblanks (endsNumber_cons hc rest)

def Begins (s : List Char) : Prop :=
  ∃ c r, s = c :: r ∧ isSpace c = false ∧ c ≠ ']'

section Readers

variable {item : (s : List Char) → Reading Json s} {item? : Option ((s : List Char) → Reading Json s)}
  {c : Char} {s r rest last : List Char} {value : Json} {values : List Json}

theorem Begins.append (h : Begins s) (r : List Char) : Begins (s ++ r) := by
  obtain ⟨c, t, rfl, hc⟩ := h
  exact ⟨c, t ++ r, rfl, hc⟩

theorem Begins.skip_eq (h : Begins s) : ∃ c r, skip s = c :: r ∧ c ≠ ']' := by
  obtain ⟨c, r, rfl, hspace, hend⟩ := h
  exact ⟨c, r, skip_cons hspace r, hend⟩

theorem gives_readMoreItems_next (hbegins : Begins s) (hitem : Gives item s value rest)
    (hmore : Gives (readMoreItems item) rest values last) :
    Gives (readMoreItems item) (',' :: s) (value :: values) last := by
  obtain ⟨c, r, hs, hc⟩ := hbegins.skip_eq
  exact gives_readMoreItems_iff.2
    (.inr ⟨s, c, r, value, rest, values, skip_cons (by decide) s, hs, hc, hitem, hmore, rfl⟩)

theorem gives_readItems_next (hbegins : Begins s) (hitem : Gives item s value rest)
    (hmore : Gives (readMoreItems item) rest values last) :
    Gives (readItems item) s (value :: values) last := by
  obtain ⟨c, r, hs, hc⟩ := hbegins.skip_eq
  exact gives_readItems_iff.2 (.inr ⟨c, r, value, rest, values, hs, hc, hitem, hmore, rfl⟩)

theorem gives_readMember (key : String) (hitem : Gives item s value rest) :
    Gives (readMember item) (key.toList.flatMap writtenChar ++ '"' :: ':' :: s) (key, value) rest :=
  gives_readMember_iff.2 ⟨key.toList, ':' :: s, s, readString_written key.toList (':' :: s),
    skip_cons (by decide) s, hitem, String.ofList_toList.symm⟩

theorem gives_readWith_scalar (hspace : isSpace c = false) (hbracket : c ≠ '[') (hbrace : c ≠ '{')
    (hscalar : readScalar (c :: r) = .ok (value, rest)) :
    Gives (readWith item?) (c :: r) value rest :=
  gives_readWith_iff.2 (.inr (.inr ⟨c, r, skip_cons hspace r, hbracket, hbrace, hscalar⟩))

end Readers

/-- Values that are read as they are printed: all numbers are integers of 64 bits, and arrays and
objects nest no deeper than a depth. -/
inductive IsPlain : Nat → Json → Prop
  | null (depth : Nat) : IsPlain depth .null
  | bool (depth : Nat) (value : Bool) : IsPlain depth (.bool value)
  | number (depth : Nat) {value : Number} (h : value.Is64) : IsPlain depth (.number value)
  | string (depth : Nat) (value : String) : IsPlain depth (.string value)
  | array {depth : Nat} {items : List Json} (h : ∀ item ∈ items, IsPlain depth item) :
      IsPlain (depth + 1) (.array items)
  | object {depth : Nat} {members : List (String × Json)}
      (h : ∀ member ∈ members, IsPlain depth member.2) : IsPlain (depth + 1) (.object members)

section Printed

variable {item : (s : List Char) → Reading Json s} {rest : List Char}

theorem ne_of_isDigit {c d : Char} (h : c.isDigit) (hd : d.isDigit = false) : c ≠ d := by
  rintro rfl
  rw [hd] at h
  cases h

theorem readScalar_digit {c : Char} (h : c.isDigit) (r : List Char) :
    readScalar (c :: r) =
      (Number.readUnsigned false (c :: r)).map fun found => (.number found.1, found.2) := by
  have hne : ∀ d : Char, d.isDigit = false → c ≠ d := fun d hd => ne_of_isDigit h hd
  rw [readScalar.eq_def]
  split
  · contradiction
  · exact absurd (List.cons.inj ‹_›).1 (hne 'n' (by decide))
  · exact absurd (List.cons.inj ‹_›).1 (hne 't' (by decide))
  · exact absurd (List.cons.inj ‹_›).1 (hne 'f' (by decide))
  · exact absurd (List.cons.inj ‹_›).1 (hne '"' (by decide))
  · exact absurd (List.cons.inj ‹_›).1 (hne '-' (by decide))
  · rename_i heq
    obtain ⟨rfl, rfl⟩ := List.cons.inj heq
    rw [if_pos h]

theorem exists_text_of_is64 {value : Number} (h : value.Is64) :
    ∃ c r, value.text = c :: r ∧ (c = '-' ∨ c.isDigit) ∧
      ∀ rest, EndsNumber rest → readScalar (c :: r ++ rest) = .ok (.number value, rest) := by
  cases value with
  | double value => exact h.elim
  | integer value =>
    obtain ⟨hlow, hhigh⟩ := h
    cases value with
    | ofNat n =>
      obtain ⟨c, r, hdigits⟩ := List.exists_cons_of_ne_nil (Nat.toDigits_ne_nil (n := n) (b := 10))
      have hdigit : c.isDigit := by
        apply Nat.isDigit_of_mem_toDigits (b := 10) (n := n) (by decide) (by decide)
        rw [hdigits]
        exact List.mem_cons_self
      refine ⟨c, r, by rw [Number.text_ofNat, hdigits], .inr hdigit, fun rest hrest => ?_⟩
      rw [List.cons_append, readScalar_digit hdigit, ← List.cons_append, ← hdigits,
        Number.readUnsigned_toDigits (by simpa using hhigh) hrest]
      rfl
    | negSucc n =>
      refine ⟨'-', _, Number.text_negSucc n, .inl rfl, fun rest hrest => ?_⟩
      have hlimit : n + 1 ≤ Number.negativeLimit := by omega
      have hfits : n + 1 < Number.significandLimit := lt_of_le_of_lt hlimit (by decide)
      have hwhole : Number.whole true (n + 1) = .integer (.negSucc n) := by
        rw [Number.whole, if_pos rfl, if_neg (by omega)]
        rfl
      have hread : readScalar ('-' :: (Nat.toDigits 10 (n + 1) ++ rest)) =
          (Number.readUnsigned true (Nat.toDigits 10 (n + 1) ++ rest)).map fun found =>
            (.number found.1, found.2) := rfl
      rw [List.cons_append, hread, Number.readUnsigned_toDigits hfits hrest, hwhole]
      rfl

theorem begins_print {depth : Nat} {value : Json} (h : IsPlain depth value) :
    Begins (print value) := by
  cases h with
  | null => exact ⟨'n', _, rfl, by decide⟩
  | bool _ value => cases value <;> exact ⟨_, _, rfl, by decide⟩
  | number _ h =>
    obtain ⟨c, r, htext, hc, -⟩ := exists_text_of_is64 h
    refine ⟨c, r, htext, ?_⟩
    rcases hc with rfl | hdigit
    · decide
    · have hne : ∀ d : Char, d.isDigit = false → c ≠ d := fun d hd => ne_of_isDigit hdigit hd
      refine ⟨?_, hne ']' (by decide)⟩
      simp [isSpace, hne ' ' (by decide), hne '\n' (by decide), hne '\t' (by decide),
        hne '\r' (by decide)]
  | string => exact ⟨'"', _, rfl, by decide⟩
  | array => exact ⟨'[', _, rfl, by decide⟩
  | object => exact ⟨'\x7b', _, rfl, by decide⟩

theorem printItems_cons (value : Json) (items : List Json) :
    printItems (value :: items) = print value ++ items.flatMap fun value => ',' :: print value := by
  induction items generalizing value with
  | nil => simp [printItems]
  | cons next items ih => rw [printItems, ih, List.flatMap_cons, List.cons_append]; simp

def printMember (member : String × Json) : List Char :=
  written member.1.toList ++ ':' :: print member.2

theorem printMembers_cons (member : String × Json) (members : List (String × Json)) :
    printMembers (member :: members) =
      printMember member ++ members.flatMap fun member => ',' :: printMember member := by
  induction members generalizing member with
  | nil => simp [printMembers, printMember]
  | cons next members ih =>
    rw [printMembers, ih, List.flatMap_cons, List.cons_append]
    · simp [printMember]
    · simp

theorem endsNumber_more {α : Type} (f : α → List Char) (items : List α) {close : Char}
    (hclose : close = ']' ∨ close = '}') (rest : List Char) :
    EndsNumber ((items.flatMap fun item => ',' :: f item) ++ close :: rest) := by
  cases items with
  | nil =>
    apply endsNumber_cons
    rcases hclose with rfl | rfl <;> decide
  | cons first items => exact endsNumber_cons (by decide) _

/-- Whether a reader takes what was printed for a value, whatever stands behind it. -/
def ReadsBack (item : (s : List Char) → Reading Json s) (value : Json) : Prop :=
  ∀ rest, EndsNumber rest → Gives item (print value ++ rest) value rest

theorem gives_moreItems {items : List Json}
    (h : ∀ value ∈ items, Begins (print value) ∧ ReadsBack item value) (rest : List Char) :
    Gives (readMoreItems item)
      ((items.flatMap fun value => ',' :: print value) ++ ']' :: rest) items rest := by
  induction items with
  | nil => exact gives_readMoreItems_iff.2 (.inl ⟨skip_cons (by decide) rest, rfl⟩)
  | cons value items ih =>
    obtain ⟨hbegins, hreads⟩ := h value List.mem_cons_self
    rw [List.flatMap_cons, List.cons_append, List.cons_append, List.append_assoc]
    exact gives_readMoreItems_next (hbegins.append _)
      (hreads _ (endsNumber_more print items (.inl rfl) rest))
      (ih fun other hother => h other (List.mem_cons_of_mem value hother))

theorem gives_items {items : List Json}
    (h : ∀ value ∈ items, Begins (print value) ∧ ReadsBack item value) (rest : List Char) :
    Gives (readItems item) (printItems items ++ ']' :: rest) items rest := by
  cases items with
  | nil => exact gives_readItems_iff.2 (.inl ⟨skip_cons (by decide) rest, rfl⟩)
  | cons value items =>
    obtain ⟨hbegins, hreads⟩ := h value List.mem_cons_self
    rw [printItems_cons, List.append_assoc]
    exact gives_readItems_next (hbegins.append _)
      (hreads _ (endsNumber_more print items (.inl rfl) rest))
      (gives_moreItems (fun other hother => h other (List.mem_cons_of_mem value hother)) rest)

/-- Whether a text holds a member of an object, in front of every text in which a number ends. -/
def HoldsMember (item : (s : List Char) → Reading Json s) (text : List Char)
    (member : String × Json) : Prop :=
  ∃ taken behind, skip behind = [] ∧
    ∀ next, EndsNumber next → skip (text ++ next) = '"' :: (taken ++ (behind ++ next)) ∧
      Gives (readMember item) (taken ++ (behind ++ next)) member (behind ++ next)

theorem holdsMember_printMember {member : String × Json} (h : ReadsBack item member.2) :
    HoldsMember item (printMember member) member := by
  refine ⟨member.1.toList.flatMap writtenChar ++ '"' :: ':' :: print member.2, [], rfl, ?_⟩
  intro next hnext
  have hmember := gives_readMember member.1 (h next hnext)
  constructor
  · simp only [printMember, written, List.append_assoc, List.cons_append, List.nil_append]
    exact skip_cons (by decide) _
  · simpa using hmember

section Members

variable {ι : Type} {text : ι → List Char} {member : ι → String × Json} {items : List ι}

/-- Behind a member stand the other members, each behind a comma, and the brace. -/
theorem gives_moreMembers {blanks : List Char} (hblanks : skip blanks = [])
    (h : ∀ i ∈ items, HoldsMember item (text i) (member i)) (rest : List Char) :
    Gives (readMoreMembers item) (blanks ++ (items.flatMap (',' :: text ·) ++ '}' :: rest))
      (items.map member) rest := by
  induction items generalizing blanks with
  | nil => exact gives_readMoreMembers_iff.2 (.inl ⟨skip_blanks_cons hblanks (by decide) rest, rfl⟩)
  | cons first items ih =>
    obtain ⟨hfirst, hitems⟩ := List.forall_mem_cons.1 h
    obtain ⟨taken, behind, hbehind, htaken⟩ := hfirst
    obtain ⟨hskip, hmember⟩ := htaken _ (endsNumber_more text items (.inr rfl) rest)
    have hcomma := skip_blanks_cons hblanks (c := ',') (by decide)
      (text first ++ (items.flatMap (',' :: text ·) ++ '}' :: rest))
    rw [List.flatMap_cons, List.cons_append, List.cons_append, List.append_assoc]
    exact gives_readMoreMembers_iff.2
      (.inr ⟨_, _, member first, _, _, hcomma, hskip, hmember, ih hbehind hitems, rfl⟩)

theorem gives_members {first : ι} (h : ∀ i ∈ first :: items, HoldsMember item (text i) (member i))
    (rest : List Char) :
    Gives (readMembers item) (text first ++ (items.flatMap (',' :: text ·) ++ '}' :: rest))
      ((first :: items).map member) rest := by
  obtain ⟨hfirst, hitems⟩ := List.forall_mem_cons.1 h
  obtain ⟨taken, behind, hbehind, htaken⟩ := hfirst
  obtain ⟨hskip, hmember⟩ := htaken _ (endsNumber_more text items (.inr rfl) rest)
  exact gives_readMembers_iff.2
    (.inr ⟨_, member first, _, _, hskip, hmember, gives_moreMembers hbehind hitems rest, rfl⟩)

end Members

theorem gives_printMembers {members : List (String × Json)}
    (h : ∀ member ∈ members, ReadsBack item member.2) (rest : List Char) :
    Gives (readMembers item) (printMembers members ++ '}' :: rest) members rest := by
  cases members with
  | nil => exact gives_readMembers_iff.2 (.inl ⟨skip_cons (by decide) rest, rfl⟩)
  | cons member members =>
    have hholds : ∀ own ∈ member :: members, HoldsMember item (printMember own) (id own) :=
      fun own hown => holdsMember_printMember (h own hown)
    have hgives := gives_members hholds rest
    rw [List.map_id] at hgives
    rw [printMembers_cons, List.append_assoc]
    exact hgives

theorem exists_readNested (depth : Nat) : ∃ item?, readNested depth = readWith item? := by
  cases depth with
  | zero => exact ⟨none, rfl⟩
  | succ depth => exact ⟨some (readNested depth), rfl⟩

/-- A printed value is read from the front of a text, and what stands behind it is left. -/
theorem readsBack_of_isPlain {depth : Nat} {value : Json} (h : IsPlain depth value) :
    ReadsBack (readNested depth) value := by
  -- a scalar is read at any depth, and what lies in an array or an object has one level less
  induction h with
  | null depth =>
    intro rest hrest
    obtain ⟨item?, hitem⟩ := exists_readNested depth
    rw [hitem]
    exact gives_readWith_scalar (by decide) (by decide) (by decide) rfl
  | bool depth value =>
    intro rest hrest
    obtain ⟨item?, hitem⟩ := exists_readNested depth
    rw [hitem]
    cases value <;> exact gives_readWith_scalar (by decide) (by decide) (by decide) rfl
  | @number depth value h =>
    intro rest hrest
    obtain ⟨item?, hitem⟩ := exists_readNested depth
    obtain ⟨c, r, htext, hc, hscalar⟩ := exists_text_of_is64 h
    have hprint : print (.number value) = c :: r := htext
    obtain ⟨d, t, hbegins, hspace, -⟩ := begins_print (.number depth h)
    have hbegin : d = c := (List.cons.inj (hbegins.symm.trans hprint)).1
    subst hbegin
    have hopen : d ≠ '[' ∧ d ≠ '{' := by
      rcases hc with rfl | hdigit
      · decide
      · exact ⟨ne_of_isDigit hdigit (by decide), ne_of_isDigit hdigit (by decide)⟩
    rw [hitem, hprint]
    exact gives_readWith_scalar hspace hopen.1 hopen.2 (hscalar rest hrest)
  | string depth value =>
    intro rest hrest
    obtain ⟨item?, hitem⟩ := exists_readNested depth
    rw [hitem]
    have hread : readScalar ('"' :: (value.toList.flatMap writtenChar ++ '"' :: rest)) =
        .ok (.string value, rest) := by
      have hstring : readScalar ('"' :: (value.toList.flatMap writtenChar ++ '"' :: rest)) =
          (readString (value.toList.flatMap writtenChar ++ '"' :: rest)).map fun found =>
            (.string (String.ofList found.1), found.2) := rfl
      rw [hstring, readString_written]
      simp [Except.map]
    have hprint : print (.string value) ++ rest =
        '"' :: (value.toList.flatMap writtenChar ++ '"' :: rest) := by
      simp [print, written]
    rw [hprint]
    exact gives_readWith_scalar (by decide) (by decide) (by decide) hread
  | @array depth items h ih =>
    intro rest hrest
    have hprint : print (.array items) ++ rest = '[' :: (printItems items ++ ']' :: rest) := by
      simp [print]
    rw [hprint]
    have hitems := gives_items (fun item hitem => ⟨begins_print (h item hitem), ih item hitem⟩) rest
    exact gives_readWith_iff.2 (.inl ⟨_, _, items, rfl, skip_cons (by decide) _, hitems, rfl⟩)
  | @object depth members h ih =>
    intro rest hrest
    have hprint : print (.object members) ++ rest = '{' :: (printMembers members ++ '}' :: rest) := by
      simp [print]
    rw [hprint]
    exact gives_readWith_iff.2
      (.inr (.inl ⟨_, _, members, rfl, skip_cons (by decide) _, gives_printMembers ih rest, rfl⟩))

/-- A value that was printed on a line of its own is read as it was. -/
theorem read_print {value : Json} (h : IsPlain depthLimit value) {behind : List Char}
    (hbehind : ∀ c ∈ behind, isSpace c) : read (print value ++ behind) = .ok value := by
  have hskip : skip behind = [] := List.dropWhile_eq_nil_iff.mpr hbehind
  have hends : EndsNumber (behind ++ []) := endsNumber_blanks hskip endsNumber_nil
  rw [List.append_nil] at hends
  exact read_eq_ok_iff.2 ⟨behind, readsBack_of_isPlain h behind hends, hskip⟩

end Printed

end BehaviorRegistrar.Json
