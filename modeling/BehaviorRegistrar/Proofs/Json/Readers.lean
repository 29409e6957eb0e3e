import BehaviorRegistrar.Json.Printer
import BehaviorRegistrar.Json.Reader
import Mathlib.Data.List.TakeWhile

/-!
# What readers give

A reader gives a value and leaves the rest of its text. For each reader, what it gives is told by
what stands behind the blanks of the text and by what the readers give that it calls; the faults and
the lengths are left out.
-/

namespace BehaviorRegistrar.Json

theorem map_eq_ok_iff {ε α β : Type} {found : Except ε α} {f : α → β} {y : β} :
    found.map f = .ok y ↔ ∃ x, found = .ok x ∧ f x = y := by
  cases found <;> simp [Except.map]

theorem bind_eq_ok_iff {ε α β : Type} {found : Except ε α} {f : α → Except ε β} {y : β} :
    found >>= f = .ok y ↔ ∃ x, found = .ok x ∧ f x = .ok y := by
  cases found <;> simp [bind, Except.bind]

/-- Whether a reader takes a value from the front of a text and leaves the rest. -/
def Gives {α : Type} (reader : (s : List Char) → Reading α s) (s : List Char) (value : α)
    (rest : List Char) : Prop :=
  ∃ h, reader s = .ok (value, ⟨rest, h⟩)

theorem Gives.length_lt {α : Type} {reader : (s : List Char) → Reading α s} {s rest : List Char}
    {value : α} (h : Gives reader s value rest) : rest.length < s.length :=
  h.1

/-! ## Blanks -/

section Blanks

variable {c : Char} {s rest blanks : List Char}

theorem skip_cons (h : isSpace c = false) (r : List Char) : skip (c :: r) = c :: r := by
  simp [skip, h]

theorem skip_blanks_append (h : skip blanks = []) (s : List Char) : skip (blanks ++ s) = skip s :=
  List.dropWhile_append_of_pos (List.dropWhile_eq_nil_iff.1 h)

theorem skip_blanks_cons (h : skip blanks = []) (hc : isSpace c = false) (s : List Char) :
    skip (blanks ++ c :: s) = c :: s := by
  rw [skip_blanks_append h, skip_cons hc]

theorem skip_append_of_skip (h : skip s = c :: rest) (t : List Char) :
    skip (s ++ t) = c :: (rest ++ t) := by
  rw [skip] at h
  rw [skip, List.dropWhile_append, h]
  rfl

theorem isSpace_of_skip (h : skip s = c :: rest) : isSpace c = false := by
  have hnot := List.head?_dropWhile_not isSpace s
  rw [← skip, h] at hnot
  exact hnot

theorem exists_blanks_append (s : List Char) :
    ∃ blanks, skip blanks = [] ∧ s = blanks ++ skip s :=
  ⟨s.takeWhile isSpace, List.dropWhile_eq_nil_iff.2 fun _ => List.mem_takeWhile_imp (p := isSpace),
    List.takeWhile_append_dropWhile.symm⟩

theorem exists_blanks (h : skip s = c :: rest) :
    ∃ blanks, skip blanks = [] ∧ s = blanks ++ c :: rest ∧
      ∀ next, skip (blanks ++ c :: next) = c :: next := by
  obtain ⟨blanks, hblanks, hs⟩ := exists_blanks_append s
  exact ⟨blanks, hblanks, h ▸ hs, skip_blanks_cons hblanks (isSpace_of_skip h)⟩

end Blanks

/-! ## Readers -/

section Readers

variable {item : (s : List Char) → Reading Json s} {item? : Option ((s : List Char) → Reading Json s)}
  {s rest : List Char} {value : Json} {values : List Json} {member : String × Json}
  {members : List (String × Json)}

theorem readLetters_eq_ok_iff {word : List Char} {found : Json} :
    readLetters value word s = .ok (found, rest) ↔ found = value ∧ s = word ++ rest := by
  induction word generalizing s with
  | nil => simp [readLetters, eq_comm]
  | cons w word ih =>
    cases s with
    | nil => simp [readLetters]
    | cons c s =>
      by_cases hletter : w = c
      · rw [readLetters, if_pos hletter, ih, hletter, List.cons_append, List.cons.injEq,
          and_iff_right rfl]
      · simp [readLetters, hletter, Ne.symm hletter]

/-- What a scalar can be. -/
theorem readScalar_cases (h : readScalar s = .ok (value, rest)) :
    value = .null ∨ (∃ b, value = .bool b ∧ s = print (.bool b) ++ rest) ∨
      (∃ text, value = .string text) ∨ ∃ number, value = .number number := by
  rw [readScalar.eq_def] at h
  split at h
  · cases h
  · exact .inl (readLetters_eq_ok_iff.1 h).1
  · obtain ⟨rfl, rfl⟩ := readLetters_eq_ok_iff.1 h
    exact .inr (.inl ⟨true, rfl, rfl⟩)
  · obtain ⟨rfl, rfl⟩ := readLetters_eq_ok_iff.1 h
    exact .inr (.inl ⟨false, rfl, rfl⟩)
  · obtain ⟨found, -, hvalue⟩ := map_eq_ok_iff.1 h
    exact .inr (.inr (.inl ⟨_, (Prod.mk.inj hvalue).1.symm⟩))
  · obtain ⟨found, -, hvalue⟩ := map_eq_ok_iff.1 h
    exact .inr (.inr (.inr ⟨_, (Prod.mk.inj hvalue).1.symm⟩))
  · split at h
    · obtain ⟨found, -, hvalue⟩ := map_eq_ok_iff.1 h
      exact .inr (.inr (.inr ⟨_, (Prod.mk.inj hvalue).1.symm⟩))
    · cases h

theorem readScalar_eq_bool_iff {b : Bool} :
    readScalar s = .ok (.bool b, rest) ↔ s = print (.bool b) ++ rest := by
  constructor
  · intro h
    rcases readScalar_cases h with hvalue | ⟨_, hvalue, hs⟩ | ⟨_, hvalue⟩ | ⟨_, hvalue⟩
    all_goals cases hvalue
    exact hs
  · rintro rfl
    cases b <;> rfl

/-- Behind an item stands the bracket, or a comma and one more item. -/
theorem gives_readMoreItems_iff :
    Gives (readMoreItems item) s values rest ↔
      (skip s = ']' :: rest ∧ values = []) ∨
        ∃ r c t value mid more, skip s = ',' :: r ∧ skip r = c :: t ∧ c ≠ ']' ∧
          Gives item r value mid ∧ Gives (readMoreItems item) mid more rest ∧
            values = value :: more := by
  constructor
  · rintro ⟨h, hread⟩
    rw [readMoreItems] at hread
    split at hread
    · cases hread
    · cases hread
      exact .inl ⟨‹_›, rfl⟩
    · rename_i r hs
      split at hread
      · cases hread
      · cases hread
      · rename_i c t hend hr
        split at hread
        · cases hread
        · rename_i value mid hvalue
          split at hread
          · cases hread
          · rename_i more last hmore
            cases hread
            exact .inr ⟨r, c, t, value, mid.val, more, hs, hr, hend, ⟨mid.property, hvalue⟩,
              ⟨last.property, hmore⟩, rfl⟩
    · cases hread
  · rintro (⟨hs, rfl⟩ | ⟨r, c, t, value, mid, more, hs, hr, hc, ⟨hmid, hvalue⟩, ⟨hlast, hmore⟩, rfl⟩)
    · refine ⟨length_lt_of_skip hs, ?_⟩
      rw [readMoreItems]
      split
      all_goals
        rename_i hs'
        rw [hs] at hs'
        cases hs'
      · rfl
      · contradiction
    · have hlt := length_lt_of_skip hs
      refine ⟨by omega, ?_⟩
      rw [readMoreItems]
      split
      all_goals
        rename_i hs'
        rw [hs] at hs'
        cases hs'
      · rw [hr]
        split
        · contradiction
        · rename_i heq
          exact absurd (List.cons.inj heq).1 hc
        · simp only [hvalue, hmore]
          rfl
      · contradiction

theorem gives_readItems_iff :
    Gives (readItems item) s values rest ↔
      (skip s = ']' :: rest ∧ values = []) ∨
        ∃ c t value mid more, skip s = c :: t ∧ c ≠ ']' ∧ Gives item s value mid ∧
          Gives (readMoreItems item) mid more rest ∧ values = value :: more := by
  constructor
  · rintro ⟨h, hread⟩
    rw [readItems] at hread
    split at hread
    · cases hread
    · cases hread
      exact .inl ⟨‹_›, rfl⟩
    · rename_i c t hend hs
      split at hread
      · cases hread
      · rename_i value mid hvalue
        split at hread
        · cases hread
        · rename_i more last hmore
          cases hread
          exact .inr ⟨c, t, value, mid.val, more, hs, hend, ⟨mid.property, hvalue⟩,
            ⟨last.property, hmore⟩, rfl⟩
  · rintro (⟨hs, rfl⟩ | ⟨c, t, value, mid, more, hs, hc, ⟨hmid, hvalue⟩, ⟨hlast, hmore⟩, rfl⟩)
    · refine ⟨length_lt_of_skip hs, ?_⟩
      rw [readItems]
      split
      all_goals
        rename_i hs'
        rw [hs] at hs'
        cases hs'
      · rfl
      · contradiction
    · refine ⟨by omega, ?_⟩
      rw [readItems]
      split
      all_goals
        rename_i hs'
        rw [hs] at hs'
        cases hs'
      · exact absurd rfl hc
      · simp only [hvalue, hmore]
        rfl

/-- A member is a key, a colon and a value. -/
theorem gives_readMember_iff :
    Gives (readMember item) s member rest ↔
      ∃ key r t, readString s = .ok (key, r) ∧ skip r = ':' :: t ∧ Gives item t member.2 rest ∧
        member.1 = String.ofList key := by
  constructor
  · rintro ⟨h, hread⟩
    rw [readMember] at hread
    split at hread
    · cases hread
    · rename_i key r hkey
      split at hread
      · cases hread
      · rename_i t hr
        split at hread
        · cases hread
        · rename_i value mid hvalue
          cases hread
          exact ⟨key, r, t, hkey, hr, ⟨mid.property, hvalue⟩, rfl⟩
      · cases hread
  · obtain ⟨name, value⟩ := member
    rintro ⟨key, r, t, hkey, hr, ⟨hmid, hvalue⟩, rfl⟩
    have hlt := length_lt_of_skip hr
    have hlt' := length_of_readString hkey
    refine ⟨by omega, ?_⟩
    rw [readMember]
    split
    all_goals
      rename_i hkey'
      rw [hkey] at hkey'
      cases hkey'
    split
    all_goals
      rename_i hr'
      rw [hr] at hr'
      cases hr'
    · simp only [hvalue]
      rfl
    · contradiction

theorem gives_readMoreMembers_iff :
    Gives (readMoreMembers item) s members rest ↔
      (skip s = '}' :: rest ∧ members = []) ∨
        ∃ r t member mid more, skip s = ',' :: r ∧ skip r = '"' :: t ∧
          Gives (readMember item) t member mid ∧ Gives (readMoreMembers item) mid more rest ∧
            members = member :: more := by
  constructor
  · rintro ⟨h, hread⟩
    rw [readMoreMembers] at hread
    split at hread
    · cases hread
    · cases hread
      exact .inl ⟨‹_›, rfl⟩
    · rename_i r hs
      split at hread
      · cases hread
      · cases hread
      · rename_i t hr
        split at hread
        · cases hread
        · rename_i member mid hmember
          split at hread
          · cases hread
          · rename_i more last hmore
            cases hread
            exact .inr ⟨r, t, member, mid.val, more, hs, hr, ⟨mid.property, hmember⟩,
              ⟨last.property, hmore⟩, rfl⟩
      · cases hread
    · cases hread
  · rintro (⟨hs, rfl⟩ | ⟨r, t, member, mid, more, hs, hr, ⟨hmid, hmember⟩, ⟨hlast, hmore⟩, rfl⟩)
    · refine ⟨length_lt_of_skip hs, ?_⟩
      rw [readMoreMembers]
      split
      all_goals
        rename_i hs'
        rw [hs] at hs'
        cases hs'
      · rfl
      · contradiction
    · have hlt := length_lt_of_skip hs
      have hlt' := length_lt_of_skip hr
      refine ⟨by omega, ?_⟩
      rw [readMoreMembers]
      split
      all_goals
        rename_i hs'
        rw [hs] at hs'
        cases hs'
      · split
        all_goals
          rename_i hr'
          rw [hr] at hr'
          cases hr'
        · simp only [hmember, hmore]
          rfl
        · contradiction
      · contradiction

/-- Behind the brace stands the other brace, or a member. -/
theorem gives_readMembers_iff :
    Gives (readMembers item) s members rest ↔
      (skip s = '}' :: rest ∧ members = []) ∨
        ∃ r member mid more, skip s = '"' :: r ∧ Gives (readMember item) r member mid ∧
          Gives (readMoreMembers item) mid more rest ∧ members = member :: more := by
  constructor
  · rintro ⟨h, hread⟩
    rw [readMembers] at hread
    split at hread
    · cases hread
    · cases hread
      exact .inl ⟨‹_›, rfl⟩
    · rename_i r hs
      split at hread
      · cases hread
      · rename_i member mid hmember
        split at hread
        · cases hread
        · rename_i more last hmore
          cases hread
          exact .inr ⟨r, member, mid.val, more, hs, ⟨mid.property, hmember⟩,
            ⟨last.property, hmore⟩, rfl⟩
    · cases hread
  · rintro (⟨hs, rfl⟩ | ⟨r, member, mid, more, hs, ⟨hmid, hmember⟩, ⟨hlast, hmore⟩, rfl⟩)
    · refine ⟨length_lt_of_skip hs, ?_⟩
      rw [readMembers]
      split
      all_goals
        rename_i hs'
        rw [hs] at hs'
        cases hs'
      · rfl
      · contradiction
    · have hlt := length_lt_of_skip hs
      refine ⟨by omega, ?_⟩
      rw [readMembers]
      split
      all_goals
        rename_i hs'
        rw [hs] at hs'
        cases hs'
      · simp only [hmember, hmore]
        rfl
      · contradiction

/-- A value is an array or an object, where one may lie, or a scalar. -/
theorem gives_readWith_iff :
    Gives (readWith item?) s value rest ↔
      (∃ item r items, item? = some item ∧ skip s = '[' :: r ∧
        Gives (readItems item) r items rest ∧ value = .array items) ∨
      (∃ item r members, item? = some item ∧ skip s = '{' :: r ∧
        Gives (readMembers item) r members rest ∧ value = .object members) ∨
      ∃ c r, skip s = c :: r ∧ c ≠ '[' ∧ c ≠ '{' ∧ readScalar (c :: r) = .ok (value, rest) := by
  constructor
  · rintro ⟨h, hread⟩
    rw [readWith] at hread
    split at hread
    · cases hread
    · rename_i r hs
      split at hread
      · cases hread
      · rename_i item
        split at hread
        · cases hread
        · rename_i items mid hitems
          cases hread
          exact .inl ⟨item, r, items, rfl, hs, ⟨mid.property, hitems⟩, rfl⟩
    · rename_i r hs
      split at hread
      · cases hread
      · rename_i item
        split at hread
        · cases hread
        · rename_i members mid hmembers
          cases hread
          exact .inr (.inl ⟨item, r, members, rfl, hs, ⟨mid.property, hmembers⟩, rfl⟩)
    · rename_i c r hbracket hbrace hs
      split at hread
      · cases hread
      · rename_i hscalar
        cases hread
        exact .inr (.inr ⟨c, r, hs, hbracket, hbrace, hscalar⟩)
  · rintro (⟨item, r, items, rfl, hs, ⟨hmid, hitems⟩, rfl⟩ |
      ⟨item, r, members, rfl, hs, ⟨hmid, hmembers⟩, rfl⟩ | ⟨c, r, hs, hbracket, hbrace, hscalar⟩)
    · have hlt := length_lt_of_skip hs
      refine ⟨by omega, ?_⟩
      rw [readWith]
      split
      all_goals
        rename_i hs'
        rw [hs] at hs'
        cases hs'
      · simp only [hitems]
        rfl
      · contradiction
    · have hlt := length_lt_of_skip hs
      refine ⟨by omega, ?_⟩
      rw [readWith]
      split
      all_goals
        rename_i hs'
        rw [hs] at hs'
        cases hs'
      · simp only [hmembers]
        rfl
      · contradiction
    · have hlt := length_lt_of_skip hs
      have hlt' := length_of_readScalar hscalar
      rw [List.length_cons] at hlt'
      refine ⟨by omega, ?_⟩
      rw [readWith]
      split
      all_goals
        rename_i hs'
        rw [hs] at hs'
        cases hs'
      · exact absurd rfl hbracket
      · exact absurd rfl hbrace
      · split
        · rename_i hread
          rw [hscalar] at hread
          cases hread
        · rename_i hread
          rw [hscalar] at hread
          cases hread
          rfl

/-- A whole text holds a value if nothing but blanks is left behind it. -/
theorem read_eq_ok_iff {text : List Char} :
    read text = .ok value ↔
      ∃ rest, Gives (readNested depthLimit) text value rest ∧ skip rest = [] := by
  rw [read]
  constructor
  · intro h
    split at h
    · cases h
    · rename_i found rest hfound
      split at h
      · rename_i hrest
        cases h
        exact ⟨rest.val, ⟨rest.property, hfound⟩, hrest⟩
      · cases h
  · rintro ⟨rest, ⟨hlt, hfound⟩, hrest⟩
    rw [hfound]
    dsimp only
    rw [hrest]

theorem read_eq_array_iff {text : List Char} :
    read text = .ok (.array values) ↔ ∃ r rest, skip text = '[' :: r ∧
      Gives (readItems (readNested (depthLimit - 1))) r values rest ∧ skip rest = [] := by
  rw [read_eq_ok_iff]
  constructor
  · rintro ⟨rest, hvalue, hrest⟩
    rcases gives_readWith_iff.1 hvalue with ⟨item, r, items, hitem, hs, hitems, hvalue⟩ |
      ⟨_, _, _, -, -, -, hvalue⟩ | ⟨c, r, -, -, -, hscalar⟩
    · obtain rfl := Option.some.inj hitem
      cases hvalue
      exact ⟨r, rest, hs, hitems, hrest⟩
    · cases hvalue
    · rcases readScalar_cases hscalar with hvalue | ⟨_, hvalue, -⟩ | ⟨_, hvalue⟩ | ⟨_, hvalue⟩
      all_goals cases hvalue
  · rintro ⟨r, rest, hs, hitems, hrest⟩
    exact ⟨rest, gives_readWith_iff.2 (.inl ⟨_, r, values, rfl, hs, hitems, rfl⟩), hrest⟩

theorem read_eq_object_iff {text : List Char} :
    read text = .ok (.object members) ↔ ∃ r rest, skip text = '{' :: r ∧
      Gives (readMembers (readNested (depthLimit - 1))) r members rest ∧ skip rest = [] := by
  rw [read_eq_ok_iff]
  constructor
  · rintro ⟨rest, hvalue, hrest⟩
    rcases gives_readWith_iff.1 hvalue with ⟨_, _, _, -, -, -, hvalue⟩ |
      ⟨item, r, members, hitem, hs, hmembers, hvalue⟩ | ⟨c, r, -, -, -, hscalar⟩
    · cases hvalue
    · obtain rfl := Option.some.inj hitem
      cases hvalue
      exact ⟨r, rest, hs, hmembers, hrest⟩
    · rcases readScalar_cases hscalar with hvalue | ⟨_, hvalue, -⟩ | ⟨_, hvalue⟩ | ⟨_, hvalue⟩
      all_goals cases hvalue
  · rintro ⟨r, rest, hs, hmembers, hrest⟩
    exact ⟨rest, gives_readWith_iff.2 (.inr (.inl ⟨_, r, members, rfl, hs, hmembers, rfl⟩)), hrest⟩

end Readers

end BehaviorRegistrar.Json
