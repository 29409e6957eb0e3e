import BehaviorRegistrar.Options.Streamed
import BehaviorRegistrar.Proofs.Options.Acceptance

/-!
# The two ways to read options

Options are read by way of a value or in one pass. Both take a text without members, and one with a
single member that is in order. In one pass an array stands for the one property, and by way of a value
the property may be repeated; there is no other text that only one of them takes.
-/

namespace BehaviorRegistrar.Options

open Json Text

/-- Texts of arrays that stand for options: without items, or of one boolean. -/
inductive IsListText : List Char → Options → Prop
  | empty {before within after : List Char} (hbefore : skip before = []) (hwithin : skip within = [])
      (hafter : skip after = []) : IsListText (before ++ '[' :: (within ++ ']' :: after)) ⟨false⟩
  | item (b : Bool) {before first second after : List Char} (hbefore : skip before = [])
      (hfirst : skip first = []) (hsecond : skip second = []) (hafter : skip after = []) :
      IsListText (before ++ '[' :: (first ++ (print (.bool b) ++ (second ++ ']' :: after)))) ⟨b⟩

/-- Texts of objects that have the one property more than once, with a boolean as the last value. -/
def IsRepeatedText (text : List Char) (options : Options) : Prop :=
  ∃ members, read text = .ok (.object members) ∧ (∀ member ∈ members, member.1 = hotReloadKey) ∧
    2 ≤ members.length ∧ valueOf? hotReloadKey members = some (.bool options.hotReload)

/-- Texts of objects that have the one property at most once, with a boolean. -/
def IsPlainText (text : List Char) (options : Options) : Prop :=
  ∃ members, read text = .ok (.object members) ∧
    (members = [] ∧ options = standard ∨ members = [(hotReloadKey, .bool options.hotReload)])

variable {depth : Nat} {b : Bool} {s r rest : List Char} {options : Options} {text : String}

/-! ## By way of a value -/

/-- By way of a value, the property is taken if all its values but the last are ignored. -/
theorem ofText_eq_ok_iff_plain_or_repeated :
    ofText text = .ok options ↔
      IsPlainText text.toList options ∨ IsRepeatedText text.toList options := by
  rw [ofText_eq_ok_iff]
  constructor
  · rintro ⟨value, hread, haccepted⟩
    match value, haccepted with
    | .object members, ⟨hkeys, hvalue⟩ =>
      match members, hkeys, hvalue with
      | [], _, hvalue =>
        refine .inl ⟨[], hread, .inl ⟨rfl, ?_⟩⟩
        obtain ⟨flag⟩ := options
        exact congrArg Options.mk (Json.bool.inj hvalue).symm
      | [(key, value)], hkeys, hvalue =>
        obtain rfl : key = hotReloadKey := hkeys _ List.mem_cons_self
        refine .inl ⟨_, hread, .inr ?_⟩
        rw [valueOf?_singleton, if_pos rfl, Option.getD_some] at hvalue
        exact congrArg (fun value => [(hotReloadKey, value)]) hvalue
      | first :: second :: more, hkeys, hvalue =>
        refine .inr ⟨_, hread, hkeys, by simp, ?_⟩
        have hkey : hotReloadKey ∈ (first :: second :: more).map Prod.fst := by
          simp [hkeys first List.mem_cons_self]
        obtain ⟨value, hlast⟩ := exists_valueOf? hkey
        rw [hlast, Option.getD_some] at hvalue
        rw [hlast, hvalue]
  · rintro (⟨members, hread, hmembers⟩ | ⟨members, hread, hkeys, -, hvalue⟩)
    · refine ⟨_, hread, ?_⟩
      rcases hmembers with ⟨rfl, rfl⟩ | rfl
      · exact ⟨nofun, rfl⟩
      · refine ⟨by simp, ?_⟩
        rw [valueOf?_singleton, if_pos rfl]
        rfl
    · exact ⟨_, hread, hkeys, by rw [hvalue]; rfl⟩

/-! ## In one pass -/

theorem skip_print_bool (b : Bool) (rest : List Char) :
    skip (print (.bool b) ++ rest) = print (.bool b) ++ rest := by
  cases b <;> exact skip_cons (by decide) _

theorem gives_bool_iff :
    Gives (readNested depth) s (.bool b) rest ↔ skip s = print (.bool b) ++ rest := by
  obtain ⟨item?, hnested⟩ := exists_readNested depth
  rw [hnested, gives_readWith_iff]
  constructor
  · rintro (⟨_, _, _, -, -, -, hvalue⟩ | ⟨_, _, _, -, -, -, hvalue⟩ | ⟨c, r, hs, -, -, hscalar⟩)
    · cases hvalue
    · cases hvalue
    · exact hs.trans (readScalar_eq_bool_iff.1 hscalar)
  · intro h
    have hscalar := readScalar_eq_bool_iff.2 (Eq.refl (print (.bool b) ++ rest))
    cases b <;> exact .inr (.inr ⟨_, _, h, by decide, by decide, hscalar⟩)

theorem readBoolean_eq_ok_iff :
    readBoolean s = .ok (b, rest) ↔ skip s = print (.bool b) ++ rest := by
  constructor
  · intro h
    rw [readBoolean] at h
    split at h
    · cases h
    · cases h
    · cases h
    · rename_i c r _ _ hs
      split at h
      · cases h
      · rename_i hscalar
        obtain ⟨rfl, rfl⟩ := Prod.mk.inj (Except.ok.inj h)
        exact hs.trans (readScalar_eq_bool_iff.1 hscalar)
      · cases h
  · intro h
    rw [readBoolean, h]
    cases b <;> rfl

theorem readKey_eq_ok_iff {key : String} :
    readKey s = .ok (key, rest) ↔
      ∃ name, readString s = .ok (name, rest) ∧ key = String.ofList name := by
  rw [readKey]
  cases readString s with
  | error fault => exact iff_of_false nofun nofun
  | ok found => simp [Prod.ext_iff, eq_comm, and_comm]

theorem readClosing_eq_ok_iff : readClosing s = .ok rest ↔ skip s = '}' :: rest := by
  constructor
  · intro h
    rw [readClosing] at h
    split at h
    · cases h
    · rename_i hs
      rw [hs, Except.ok.inj h]
    · split at h
      · cases h
      · cases h
      · obtain ⟨⟨key, behind⟩, -, h⟩ := bind_eq_ok_iff.1 h
        dsimp only at h
        split at h <;> cases h
      · cases h
    · cases h
  · intro h
    rw [readClosing, h]
    rfl

theorem readObject_eq_ok_iff :
    readObject s = .ok (options, rest) ↔
      (skip s = '}' :: rest ∧ options = standard) ∨
        ∃ r behind t mid, skip s = '"' :: r ∧ readKey r = .ok (hotReloadKey, behind) ∧
          skip behind = ':' :: t ∧ readBoolean t = .ok (options.hotReload, mid) ∧
            readClosing mid = .ok rest := by
  constructor
  · intro h
    rw [readObject] at h
    split at h
    · cases h
    · rename_i hs
      obtain ⟨rfl, rfl⟩ := Prod.mk.inj (Except.ok.inj h)
      exact .inl ⟨hs, rfl⟩
    · rename_i r hs
      obtain ⟨⟨key, behind⟩, hread, h⟩ := bind_eq_ok_iff.1 h
      dsimp only at h
      split at h
      · rename_i hkey
        split at h
        · cases h
        · rename_i t hcolon
          obtain ⟨⟨b, mid⟩, hboolean, h⟩ := bind_eq_ok_iff.1 h
          obtain ⟨last, hclosing, h⟩ := bind_eq_ok_iff.1 h
          obtain ⟨rfl, rfl⟩ := Prod.mk.inj (Except.ok.inj h)
          exact .inr ⟨r, behind, t, mid, hs, by rw [hread, hkey], hcolon, hboolean, hclosing⟩
        · cases h
      · cases h
    · cases h
  · rintro (⟨hs, rfl⟩ | ⟨r, behind, t, mid, hs, hread, hcolon, hboolean, hclosing⟩)
    · rw [readObject, hs]
      rfl
    · rw [readObject, hs]
      refine bind_eq_ok_iff.2 ⟨_, hread, ?_⟩
      dsimp only
      rw [if_pos rfl, hcolon]
      exact bind_eq_ok_iff.2 ⟨_, hboolean, bind_eq_ok_iff.2 ⟨rest, hclosing, rfl⟩⟩

/-- In one pass, an object is taken as its members are read. -/
theorem readObject_eq_ok_iff_members :
    readObject s = .ok (options, rest) ↔
      ∃ members, Gives (readMembers (readNested depth)) s members rest ∧
        (members = [] ∧ options = standard ∨ members = [(hotReloadKey, .bool options.hotReload)]) := by
  rw [readObject_eq_ok_iff]
  constructor
  · rintro (⟨hs, rfl⟩ | ⟨r, behind, t, mid, hs, hread, hcolon, hboolean, hclosing⟩)
    · exact ⟨[], gives_readMembers_iff.2 (.inl ⟨hs, rfl⟩), .inl ⟨rfl, rfl⟩⟩
    · obtain ⟨name, hname, hkey⟩ := readKey_eq_ok_iff.1 hread
      refine ⟨_, gives_readMembers_iff.2 (.inr ⟨r, _, mid, [], hs, gives_readMember_iff.2
        ⟨name, behind, t, hname, hcolon, gives_bool_iff.2 (readBoolean_eq_ok_iff.1 hboolean), hkey⟩,
        gives_readMoreMembers_iff.2 (.inl ⟨readClosing_eq_ok_iff.1 hclosing, rfl⟩), rfl⟩), .inr rfl⟩
  · rintro ⟨members, hmembers, ⟨rfl, rfl⟩ | rfl⟩
    · rcases gives_readMembers_iff.1 hmembers with ⟨hs, -⟩ | ⟨_, _, _, _, -, -, -, hcons⟩
      · exact .inl ⟨hs, rfl⟩
      · cases hcons
    · rcases gives_readMembers_iff.1 hmembers with ⟨-, hnil⟩ | ⟨r, _, mid, _, hs, hmember, hmore, hcons⟩
      · cases hnil
      · obtain ⟨rfl, rfl⟩ := List.cons.inj hcons
        obtain ⟨name, behind, t, hname, hcolon, hvalue, hkey⟩ := gives_readMember_iff.1 hmember
        rcases gives_readMoreMembers_iff.1 hmore with ⟨hclose, -⟩ | ⟨_, _, _, _, _, -, -, -, -, hcons⟩
        · exact .inr ⟨r, behind, t, mid, hs, readKey_eq_ok_iff.2 ⟨name, hname, hkey⟩, hcolon,
            readBoolean_eq_ok_iff.2 (gives_bool_iff.1 hvalue), readClosing_eq_ok_iff.2 hclose⟩
        · cases hcons

/-- In one pass, an array is taken if it has no item, or a boolean and no more. -/
theorem readArray_eq_ok_iff :
    readArray s = .ok (options, rest) ↔
      (skip s = ']' :: rest ∧ options = standard) ∨
        ∃ mid, readBoolean s = .ok (options.hotReload, mid) ∧ skip mid = ']' :: rest := by
  have hsame : ∀ {c r}, skip s = c :: r → readBoolean (c :: r) = readBoolean s := by
    intro c r hs
    rw [readBoolean, readBoolean, hs, skip_cons (isSpace_of_skip hs)]
  constructor
  · intro h
    rw [readArray] at h
    split at h
    · cases h
    · rename_i hs
      obtain ⟨rfl, rfl⟩ := Prod.mk.inj (Except.ok.inj h)
      exact .inl ⟨hs, rfl⟩
    · rename_i c r _ hs
      obtain ⟨⟨b, mid⟩, hboolean, h⟩ := bind_eq_ok_iff.1 h
      rw [hsame hs] at hboolean
      dsimp only at h
      split at h
      · cases h
      · rename_i hend
        obtain ⟨rfl, rfl⟩ := Prod.mk.inj (Except.ok.inj h)
        exact .inr ⟨mid, hboolean, hend⟩
      · split at h <;> cases h
      · cases h
  · rintro (⟨hs, rfl⟩ | ⟨mid, hboolean, hend⟩)
    · rw [readArray, hs]
      rfl
    · obtain ⟨flag⟩ := options
      have hitem := readBoolean_eq_ok_iff.1 hboolean
      rw [readArray, hitem]
      cases flag
      all_goals
        refine bind_eq_ok_iff.2 ⟨_, (hsame hitem).trans hboolean, ?_⟩
        dsimp only
        rw [hend]
        rfl

theorem isListText_iff :
    IsListText s options ↔
      ∃ r rest, skip s = '[' :: r ∧ readArray r = .ok (options, rest) ∧ skip rest = [] := by
  constructor
  · rintro (@⟨before, within, after, hbefore, hwithin, hafter⟩ |
      @⟨b, before, first, second, after, hbefore, hfirst, hsecond, hafter⟩)
    · have hread : readArray (within ++ ']' :: after) = .ok (standard, after) :=
        readArray_eq_ok_iff.2 (.inl ⟨skip_blanks_cons hwithin (by decide) after, rfl⟩)
      exact ⟨_, after, skip_blanks_cons hbefore (by decide) _, hread, hafter⟩
    · have hitem : readBoolean (first ++ (print (.bool b) ++ (second ++ ']' :: after))) =
          .ok (b, second ++ ']' :: after) := by
        rw [readBoolean_eq_ok_iff, skip_blanks_append hfirst, skip_print_bool]
      exact ⟨_, after, skip_blanks_cons hbefore (by decide) _, readArray_eq_ok_iff.2
        (.inr ⟨_, hitem, skip_blanks_cons hsecond (by decide) after⟩), hafter⟩
  · rintro ⟨r, after, hs, hread, hafter⟩
    obtain ⟨before, hbefore, rfl, -⟩ := exists_blanks hs
    rcases readArray_eq_ok_iff.1 hread with ⟨hend, rfl⟩ | ⟨mid, hboolean, hend⟩
    · obtain ⟨within, hwithin, rfl, -⟩ := exists_blanks hend
      exact .empty hbefore hwithin hafter
    · obtain ⟨first, hfirst, hr⟩ := exists_blanks_append r
      obtain ⟨second, hsecond, rfl, -⟩ := exists_blanks hend
      rw [readBoolean_eq_ok_iff.1 hboolean] at hr
      rw [hr]
      exact .item options.hotReload hbefore hfirst hsecond hafter

theorem isPlainText_iff :
    IsPlainText s options ↔
      ∃ r rest, skip s = '{' :: r ∧ readObject r = .ok (options, rest) ∧ skip rest = [] := by
  constructor
  · rintro ⟨members, hread, hmembers⟩
    obtain ⟨r, rest, hs, hgives, hrest⟩ := read_eq_object_iff.1 hread
    exact ⟨r, rest, hs, readObject_eq_ok_iff_members.2 ⟨members, hgives, hmembers⟩, hrest⟩
  · rintro ⟨r, rest, hs, hread, hrest⟩
    obtain ⟨members, hgives, hmembers⟩ := readObject_eq_ok_iff_members.1 hread
    exact ⟨members, read_eq_object_iff.2 ⟨r, rest, hs, hgives, hrest⟩, hmembers⟩

/-- In one pass, a text holds options as an array or as an object. -/
theorem ofStream_eq_ok_iff :
    ofStream s = .ok options ↔ IsListText s options ∨ IsPlainText s options := by
  rw [isListText_iff, isPlainText_iff]
  constructor
  · intro h
    rw [ofStream] at h
    split at h
    · cases h
    · rename_i hs
      obtain ⟨⟨found, rest⟩, hread, h⟩ := bind_eq_ok_iff.1 h
      dsimp only at h
      split at h
      · rename_i hrest
        obtain rfl := Except.ok.inj h
        exact .inr ⟨_, rest, hs, hread, hrest⟩
      · cases h
    · rename_i hs
      obtain ⟨⟨found, rest⟩, hread, h⟩ := bind_eq_ok_iff.1 h
      dsimp only at h
      split at h
      · rename_i hrest
        obtain rfl := Except.ok.inj h
        exact .inl ⟨_, rest, hs, hread, hrest⟩
      · cases h
    · obtain ⟨found, hread, -⟩ := bind_eq_ok_iff.1 h
      rw [readOther] at hread
      split at hread <;> cases hread
  · rintro (⟨r, rest, hs, hread, hrest⟩ | ⟨r, rest, hs, hread, hrest⟩)
    all_goals
      rw [ofStream, hs]
      refine bind_eq_ok_iff.2 ⟨(options, rest), hread, ?_⟩
      dsimp only
      rw [hrest]
      rfl

theorem IsListText.exists_items (h : IsListText s options) : ∃ items, read s = .ok (.array items) := by
  obtain ⟨r, rest, hs, hread, hrest⟩ := isListText_iff.1 h
  rcases readArray_eq_ok_iff.1 hread with ⟨hend, rfl⟩ | ⟨mid, hboolean, hend⟩
  · exact ⟨[], read_eq_array_iff.2
      ⟨r, rest, hs, gives_readItems_iff.2 (.inl ⟨hend, rfl⟩), hrest⟩⟩
  · have hitem := readBoolean_eq_ok_iff.1 hboolean
    have hmore : Gives (readMoreItems (readNested (depthLimit - 1))) mid [] rest :=
      gives_readMoreItems_iff.2 (.inl ⟨hend, rfl⟩)
    have hgives : Gives (readNested (depthLimit - 1)) r (.bool options.hotReload) mid :=
      gives_bool_iff.2 hitem
    obtain ⟨flag⟩ := options
    refine ⟨[.bool flag], read_eq_array_iff.2 ⟨r, rest, hs, gives_readItems_iff.2 (.inr ?_), hrest⟩⟩
    cases flag <;> exact ⟨_, _, _, mid, [], hitem, by decide, hgives, hmore, rfl⟩

/-! ## Where the two differ -/

theorem not_isListText_of_read {members : List (String × Json)}
    (h : read s = .ok (.object members)) : ¬ IsListText s options := by
  intro hlist
  obtain ⟨items, hread⟩ := hlist.exists_items
  rw [h] at hread
  cases hread

/-- An array without items or of one boolean is taken in one pass only, and an object that repeats the
property and has a boolean as its last value is taken by way of a value only. On any other text the two
ways give the same options, or both none. -/
theorem ofText_agrees_ofStream (text : String) :
    (∀ options, IsListText text.toList options →
      ofText text = .error (.notAnObject .array) ∧ ofStream text.toList = .ok options) ∧
    (∀ options, IsRepeatedText text.toList options →
      ofText text = .ok options ∧ (ofStream text.toList).toOption = none) ∧
    ((∀ options, ¬ IsListText text.toList options ∧ ¬ IsRepeatedText text.toList options) →
      (ofText text).toOption = (ofStream text.toList).toOption) := by
  refine ⟨fun options hlist => ⟨?_, ofStream_eq_ok_iff.2 (.inl hlist)⟩,
    fun options hrepeated => ⟨ofText_eq_ok_iff_plain_or_repeated.2 (.inr hrepeated), ?_⟩,
    fun hneither => ?_⟩
  · obtain ⟨items, hread⟩ := hlist.exists_items
    rw [ofText, hread]
    rfl
  · obtain ⟨members, hread, -, htwo, -⟩ := hrepeated
    cases hstream : ofStream text.toList with
    | error fault => rfl
    | ok found =>
      rcases ofStream_eq_ok_iff.1 hstream with hlist | ⟨others, hothers, hplain⟩
      · exact absurd hlist (not_isListText_of_read hread)
      · rw [hread] at hothers
        cases hothers
        rcases hplain with ⟨hmembers, -⟩ | hmembers <;> simp [hmembers] at htwo
  · ext options
    have hok : ∀ {ε : Type} {found : Except ε Options},
        found.toOption = some options ↔ found = .ok options := by
      intro ε found
      cases found <;> simp [Except.toOption]
    rw [hok, hok, ofText_eq_ok_iff_plain_or_repeated, ofStream_eq_ok_iff,
      or_iff_left (hneither options).2, or_iff_right (hneither options).1]

/-- Of an array, an object with a repeated key and one with a foreign key, only the last is the same in
both ways. -/
theorem ofText_agrees_ofStream_menu :
    let flag : WrittenMember := .printed (hotReloadKey, .bool true) (.bool _ true)
    let unset : WrittenMember := .printed (hotReloadKey, .null) (.null _)
    let menu : WrittenMember := .printed ("Menu", .null) (.null _)
    let repeated := objectText [] [unset, flag] []
    let foreign := objectText [' '] [menu] []
    (ofText "[ true ]" = .error (.notAnObject .array) ∧ ofStream "[ true ]".toList = .ok ⟨true⟩) ∧
      (ofText (.ofList repeated) = .ok ⟨true⟩ ∧
        (ofStream (String.ofList repeated).toList).toOption = none) ∧
      (ofText (.ofList foreign)).toOption = (ofStream (String.ofList foreign).toList).toOption := by
  intro flag unset menu repeated foreign
  have hlist : IsListText "[ true ]".toList ⟨true⟩ :=
    @IsListText.item true [] [' '] [' '] [] rfl rfl rfl rfl
  have hrepeated : IsRepeatedText (String.ofList repeated).toList ⟨true⟩ := by
    rw [String.toList_ofList]
    exact ⟨_, read_objectText rfl rfl [unset, flag], by simp [unset, flag, WrittenMember.printed],
      Nat.le_refl 2, rfl⟩
  refine ⟨(ofText_agrees_ofStream _).1 _ hlist, (ofText_agrees_ofStream _).2.1 _ hrepeated,
    (ofText_agrees_ofStream _).2.2 fun options => ?_⟩
  rw [String.toList_ofList]
  have hread : read foreign = .ok (.object [menu.member]) := read_objectText rfl rfl [menu]
  refine ⟨not_isListText_of_read hread, fun ⟨members, hmembers, _, htwo, _⟩ => ?_⟩
  rw [hread] at hmembers
  cases hmembers
  simp at htwo

end BehaviorRegistrar.Options
