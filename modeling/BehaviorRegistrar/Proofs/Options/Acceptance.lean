import BehaviorRegistrar.Options.Basic
import BehaviorRegistrar.Proofs.Json.ObjectTexts
import BehaviorRegistrar.Proofs.Utf8Order

/-!
# What options are accepted as

A value is accepted as options when it is an object without any key but the one that is known, and
the value that counts for this key is a boolean. Of the members that are out of order, the one whose
key has the least bytes decides the error. Neither depends on the order in which members are written.
-/

namespace BehaviorRegistrar.Options

open Json Text

def offence? (member : String × Json) : Option OptionsError :=
  if member.1 = hotReloadKey then
    if member.2.kind = .boolean then none else some (.notABoolean member.1 member.2.kind)
  else some (.unknownProperty member.1)

/-- What a value is accepted as. Without a value, and without one for the key, hot reload is off. -/
def IsAccepted : Option Json → Options → Prop
  | none, options => options.hotReload = false
  | some (.object members), options =>
    (∀ member ∈ members, member.1 = hotReloadKey) ∧
      (valueOf? hotReloadKey members).getD (.bool false) = .bool options.hotReload
  | some _, _ => False

/-- What is wrong with a value: it is no object, or it has a member that is out of order, and all
others of these have keys with greater bytes. -/
def IsRefused : Option Json → OptionsError → Prop
  | none, _ => False
  | some (.object members), error => ∃ key value, valueOf? key members = some value ∧
      offence? (key, value) = some error ∧
        ∀ other own, valueOf? other members = some own → offence? (other, own) ≠ none →
          other ≠ key → encode key < encode other
  | some value, error => error = .notAnObject value.kind

variable {members : List (String × Json)} {options next : Options} {error : OptionsError}
  {member : String × Json}

theorem offence?_eq_none_iff :
    offence? member = none ↔ ∃ b, member = (hotReloadKey, .bool b) := by
  obtain ⟨key, value⟩ := member
  by_cases hkey : key = hotReloadKey
  · rw [offence?, if_pos hkey]
    cases value <;> simp [kind, hkey]
  · rw [offence?, if_neg hkey]
    exact iff_of_false nofun fun ⟨b, hmember⟩ => hkey (congrArg Prod.fst hmember)

/-! ## Members one after the other -/

theorem takeMember_eq_ok_iff :
    takeMember options member = .ok next ↔ member = (hotReloadKey, .bool next.hotReload) := by
  obtain ⟨key, value⟩ := member
  obtain ⟨flag⟩ := next
  by_cases hkey : key = hotReloadKey
  · rw [takeMember, if_pos hkey]
    cases value <;> simp [hkey]
  · rw [takeMember, if_neg hkey]
    exact iff_of_false nofun fun hmember => hkey (congrArg Prod.fst hmember)

theorem takeMember_eq_error_iff :
    takeMember options member = .error error ↔ offence? member = some error := by
  obtain ⟨key, value⟩ := member
  rw [takeMember, offence?]
  split
  · cases value <;> simp [kind]
  · simp

theorem foldlM_takeMember_eq_error_iff :
    members.foldlM takeMember options = .error error ↔ members.findSome? offence? = some error := by
  induction members generalizing options with
  | nil => exact iff_of_false nofun nofun
  | cons member members ih =>
    rw [List.foldlM_cons, List.findSome?_cons]
    cases htake : takeMember options member with
    | error fault =>
      rw [takeMember_eq_error_iff.1 htake]
      exact ⟨fun h => by cases h; rfl, fun h => by cases h; rfl⟩
    | ok next =>
      rw [offence?_eq_none_iff.2 ⟨_, takeMember_eq_ok_iff.1 htake⟩]
      exact ih

/-- Members that are all in order set the option one after the other, so the last one counts. -/
theorem foldlM_takeMember_eq_ok_iff :
    members.foldlM takeMember options = .ok next ↔
      (∀ member ∈ members, ∃ b, member = (hotReloadKey, .bool b)) ∧
        (valueOf? hotReloadKey members).getD (.bool options.hotReload) = .bool next.hotReload := by
  induction members generalizing options with
  | nil =>
    obtain ⟨flag⟩ := options
    obtain ⟨own⟩ := next
    simp [pure, Except.pure]
  | cons member members ih =>
    rw [List.foldlM_cons, List.forall_mem_cons, and_assoc, valueOf?_cons]
    cases htake : takeMember options member with
    | error fault =>
      refine iff_of_false nofun fun ⟨hmember, _⟩ => ?_
      have hnone := offence?_eq_none_iff.2 hmember
      rw [takeMember_eq_error_iff.1 htake] at hnone
      cases hnone
    | ok own =>
      obtain rfl := takeMember_eq_ok_iff.1 htake
      refine ih.trans ?_
      have hmember : ∃ b, (hotReloadKey, Json.bool own.hotReload) = (hotReloadKey, .bool b) := ⟨_, rfl⟩
      rw [and_iff_right hmember]
      cases valueOf? hotReloadKey members <;> simp

/-! ## Values -/

theorem ofValue_eq_ok_iff {value? : Option Json} :
    ofValue value? = .ok options ↔ IsAccepted value? options := by
  fun_cases ofValue value?
  case case1 =>
    obtain ⟨flag⟩ := options
    simp [IsAccepted, standard, eq_comm]
  case case3 value hobject =>
    rw [IsAccepted]
    · exact iff_of_false nofun id
    · exact hobject
  case case2 members =>
    rw [foldlM_takeMember_eq_ok_iff, valueOf?_byKey]
    refine and_congr_left fun hvalue => ⟨fun hall member hmember => ?_, fun hkeys member hmember => ?_⟩
    · obtain ⟨value, hcounts⟩ := exists_valueOf? (List.mem_map_of_mem hmember)
      obtain ⟨b, hb⟩ := hall (member.1, value) (mem_byKey_iff.2 hcounts)
      exact congrArg Prod.fst hb
    · have hcounts := mem_byKey_iff.1 hmember
      have hkey := hkeys _ (mem_of_valueOf? hcounts)
      dsimp only at hkey
      rw [hkey] at hcounts
      rw [hcounts] at hvalue
      exact ⟨_, Prod.ext hkey hvalue⟩

theorem ofValue_eq_error_iff {value? : Option Json} :
    ofValue value? = .error error ↔ IsRefused value? error := by
  fun_cases ofValue value?
  case case1 => exact iff_of_false nofun id
  case case3 value hobject =>
    rw [IsRefused]
    · exact ⟨fun h => (Except.error.inj h).symm, fun h => congrArg Except.error h.symm⟩
    · exact hobject
  case case2 members =>
    rw [foldlM_takeMember_eq_error_iff, findSome?_byKey_eq_some_iff]
    simp only [IsRefused, encode_lt_encode_iff]

/-! ## Texts -/

variable {text : String} {before after : List Char} {first second : List WrittenMember}

theorem ofText_eq_ok_iff :
    ofText text = .ok options ↔
      ∃ value, read text.toList = .ok value ∧ IsAccepted (some value) options := by
  rw [ofText]
  cases hread : read text.toList with
  | error fault => exact iff_of_false nofun nofun
  | ok value => simp [ofValue_eq_ok_iff]

/-- What is wrong with a value is never the syntax of a text. -/
theorem IsRefused.ne_malformed {value? : Option Json} (h : IsRefused value? error) (cause : Cause)
    (place : Place) : error ≠ .malformed cause place := by
  rintro rfl
  match value? with
  | some (.object members) =>
    obtain ⟨key, value, -, hoffence, -⟩ := h
    rw [offence?] at hoffence
    split at hoffence
    · split at hoffence <;> cases hoffence
    · cases hoffence

theorem ofText_eq_malformed_iff {cause : Cause} {place : Place} :
    ofText text = .error (.malformed cause place) ↔
      ∃ fault, read text.toList = .error fault ∧ cause = fault.cause ∧
        place = fault.place text.toList := by
  rw [ofText]
  cases hread : read text.toList with
  | error fault => simp [eq_comm]
  | ok value =>
    refine iff_of_false (fun h => ?_) nofun
    exact (ofValue_eq_error_iff.1 h).ne_malformed cause place rfl

theorem ofText_objectText (hbefore : skip before = []) (hafter : skip after = [])
    (written : List WrittenMember) :
    ofText (.ofList (objectText before written after)) =
      ofValue (some (.object (written.map (·.member)))) := by
  rw [ofText, String.toList_ofList, read_objectText hbefore hafter]

/-- Texts of objects in which the same values count hold the same options, or the same is wrong with
them. -/
theorem ofText_objectText_congr (hbefore : skip before = []) (hafter : skip after = [])
    (h : ∀ key, valueOf? key (first.map (·.member)) = valueOf? key (second.map (·.member))) :
    ofText (.ofList (objectText before first after)) =
      ofText (.ofList (objectText before second after)) := by
  rw [ofText_objectText hbefore hafter, ofText_objectText hbefore hafter, ofValue, ofValue,
    byKey_congr h]

/-- A value is accepted or refused by the members that count, and of those that are out of order the
one with the least key decides. So a text holds the same whatever the order of its members, as long as
no key is repeated, and a member whose key comes again can be left out; every text of an object with
members is meant by this. Before all that, the whole text has to be read. -/
theorem decided_by_counting_members :
    (∀ value? options, ofValue value? = .ok options ↔ IsAccepted value? options) ∧
    (∀ value? error, ofValue value? = .error error ↔ IsRefused value? error) ∧
    (∀ before after (first second : List WrittenMember), skip before = [] → skip after = [] →
      (first.map (·.member)).Perm (second.map (·.member)) → (second.map (·.member.1)).Nodup →
        ofText (.ofList (objectText before first after)) =
          ofText (.ofList (objectText before second after))) ∧
    (∀ before after (first : List WrittenMember) repeated (second : List WrittenMember),
      skip before = [] → skip after = [] → repeated.member.1 ∈ second.map (·.member.1) →
        ofText (.ofList (objectText before (first ++ repeated :: second) after)) =
          ofText (.ofList (objectText before (first ++ second) after))) ∧
    (∀ text members, read text = .ok (.object members) → members ≠ [] →
      ∃ before written after, skip before = [] ∧ skip after = [] ∧
        written.map (·.member) = members ∧ text = objectText before written after) ∧
    (∀ text cause place, ofText text = .error (.malformed cause place) ↔
      ∃ fault, read text.toList = .error fault ∧ cause = fault.cause ∧
        place = fault.place text.toList) ∧
    ∀ text error, ofText text = .error error → (∀ cause place, error ≠ .malformed cause place) →
      ∃ value, read text.toList = .ok value ∧ IsRefused (some value) error := by
  refine ⟨fun _ _ => ofValue_eq_ok_iff, fun _ _ => ofValue_eq_error_iff, ?_, ?_,
    fun _ _ => exists_objectText, fun _ _ _ => ofText_eq_malformed_iff, ?_⟩
  · intro before after first second hbefore hafter hperm hnodup
    refine ofText_objectText_congr hbefore hafter (valueOf?_of_perm hperm ?_)
    rwa [List.map_map]
  · intro before after first repeated second hbefore hafter hrepeated
    refine ofText_objectText_congr hbefore hafter fun key => ?_
    rw [List.map_append, List.map_cons, List.map_append]
    refine valueOf?_of_repeated _ ?_ key
    rwa [List.map_map]
  · intro text error h hmalformed
    rw [ofText] at h
    split at h
    · exact absurd (Except.error.inj h).symm (hmalformed _ _)
    · rename_i value hread
      exact ⟨value, hread, ofValue_eq_error_iff.1 h⟩

/-- Foreign keys are refused in the order of their bytes, a repeated key counts once, and a comma too
many is found first. -/
theorem decided_by_counting_members_menu :
    let flag : WrittenMember := .printed (hotReloadKey, .bool true) (.bool _ true)
    let unset : WrittenMember := .printed (hotReloadKey, .null) (.null _)
    let menu : WrittenMember := .printed ("Menu", .null) (.null _)
    ofText (.ofList (objectText [' '] [flag, menu] [])) =
        ofText (.ofList (objectText [' '] [menu, flag] [])) ∧
      ofText (.ofList (objectText [] [unset, flag] ['\n'])) =
        ofText (.ofList (objectText [] [flag] ['\n'])) ∧
      (∃ before written after, skip before = [] ∧ skip after = [] ∧
        written.map (·.member) = [(hotReloadKey, .bool true)] ∧
          objectText [' '] [flag] [] = objectText before written after) ∧
      (∃ value, read (objectText [] [menu, unset] []) = .ok value ∧
        IsRefused (some value) (.unknownProperty "Menu")) ∧
      ∃ cause place, ofText "\x7b\"Menu\": null,\x7d" = .error (.malformed cause place) := by
  intro flag unset menu
  obtain ⟨-, hrefused, hperm, hrepeated, htexts, hmalformed, hread⟩ := decided_by_counting_members
  refine ⟨?_, ?_, ?_, ?_, ?_⟩
  · exact hperm [' '] [] [flag, menu] [menu, flag] rfl rfl (.swap ..) (by decide)
  · exact hrepeated [] ['\n'] [] unset [flag] rfl rfl (by decide)
  · exact htexts _ _ (read_objectText rfl rfl [flag]) (by simp)
  · have hleast : IsRefused (some (.object [menu.member, unset.member])) (.unknownProperty "Menu") := by
      refine ⟨"Menu", .null, by rfl, by rfl, fun other own hown _ hne => ?_⟩
      have hmem := mem_of_valueOf? hown
      simp only [List.mem_cons, List.not_mem_nil, or_false] at hmem
      rcases hmem with hmem | hmem
      · exact absurd (congrArg Prod.fst hmem) hne
      · obtain rfl : other = hotReloadKey := congrArg Prod.fst hmem
        decide +kernel
    have herror : ofText (.ofList (objectText [] [menu, unset] [])) =
        .error (.unknownProperty "Menu") := by
      rw [ofText_objectText rfl rfl]
      exact (hrefused _ _).2 hleast
    simpa using hread _ _ herror nofun
  · have hfault : (read "\x7b\"Menu\": null,\x7d".toList).isOk = false := by decide +kernel
    cases htext : read "\x7b\"Menu\": null,\x7d".toList with
    | error fault => exact ⟨_, _, (hmalformed _ _ _).2 ⟨fault, htext, rfl, rfl⟩⟩
    | ok value =>
      rw [htext] at hfault
      cases hfault

end BehaviorRegistrar.Options
