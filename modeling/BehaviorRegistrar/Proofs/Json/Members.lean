import BehaviorRegistrar.Json.Value
import Mathlib.Data.List.Induction
import Mathlib.Data.List.Nodup

/-!
# Members of an object

An object may have several values for a key, and the last one written is the one that counts. The
members by key hold exactly these values, so they are the same for two objects in which the same
values count, in whatever order their members are written.
-/

namespace BehaviorRegistrar

def Json.valuesOf (key : String) (members : List (String × Json)) : List Json :=
  (members.filter (·.1 = key)).map Prod.snd

namespace Json

variable {key name : String} {value : Json} {member : String × Json}
  {members sorted : List (String × Json)}

@[simp] theorem valuesOf_nil : valuesOf key [] = [] := rfl

@[simp] theorem valuesOf_cons (member : String × Json) (members : List (String × Json)) :
    valuesOf key (member :: members) =
      if member.1 = key then member.2 :: valuesOf key members else valuesOf key members := by
  by_cases h : member.1 = key <;> simp [valuesOf, h]

@[simp] theorem valuesOf_append (first second : List (String × Json)) :
    valuesOf key (first ++ second) = valuesOf key first ++ valuesOf key second := by
  simp [valuesOf]

/-- The value of a key that counts, which is the last one. -/
def valueOf? (key : String) (members : List (String × Json)) : Option Json :=
  (valuesOf key members).getLast?

@[simp] theorem valueOf?_nil : valueOf? key [] = none := rfl

theorem valueOf?_append (first second : List (String × Json)) :
    valueOf? key (first ++ second) = (valueOf? key second).or (valueOf? key first) := by
  rw [valueOf?, valuesOf_append, List.getLast?_append]
  rfl

theorem valueOf?_singleton :
    valueOf? key [member] = if member.1 = key then some member.2 else none := by
  rw [valueOf?, valuesOf_cons]
  split <;> rfl

theorem valueOf?_cons (member : String × Json) (members : List (String × Json)) :
    valueOf? key (member :: members) =
      (valueOf? key members).or (if member.1 = key then some member.2 else none) := by
  rw [← List.singleton_append, valueOf?_append, valueOf?_singleton]

theorem valueOf?_eq_none_iff : valueOf? key members = none ↔ key ∉ members.map Prod.fst := by
  rw [valueOf?, List.getLast?_eq_none_iff, valuesOf, List.map_eq_nil_iff, List.filter_eq_nil_iff,
    List.mem_map, not_exists]
  simp

theorem exists_valueOf? (h : key ∈ members.map Prod.fst) :
    ∃ value, valueOf? key members = some value :=
  Option.ne_none_iff_exists'.1 (mt valueOf?_eq_none_iff.1 (not_not.2 h))

theorem mem_of_valueOf? (h : valueOf? key members = some value) : (key, value) ∈ members := by
  have hmem := List.mem_of_getLast? h
  simp only [valuesOf, List.mem_map, List.mem_filter, decide_eq_true_eq] at hmem
  obtain ⟨⟨name, own⟩, ⟨hmem, rfl⟩, rfl⟩ := hmem
  exact hmem

/-- Where no key is repeated, every value counts. -/
theorem valueOf?_eq_some_iff_of_nodup (h : (members.map Prod.fst).Nodup) :
    valueOf? key members = some value ↔ (key, value) ∈ members := by
  refine ⟨mem_of_valueOf?, fun hmem => ?_⟩
  obtain ⟨before, after, rfl⟩ := List.append_of_mem hmem
  rw [List.map_append, List.map_cons, List.nodup_middle] at h
  have hafter : valueOf? key after = none :=
    valueOf?_eq_none_iff.2 fun hkey => (List.nodup_cons.1 h).1 (List.mem_append_right _ hkey)
  rw [valueOf?_append, valueOf?_cons, hafter]
  simp

/-- Where no key is repeated, the order of the members does not matter. -/
theorem valueOf?_of_perm {first second : List (String × Json)} (h : first.Perm second)
    (hnodup : (second.map Prod.fst).Nodup) (key : String) :
    valueOf? key first = valueOf? key second := by
  have hfirst : (first.map Prod.fst).Nodup := (h.map Prod.fst).nodup_iff.2 hnodup
  ext value
  rw [valueOf?_eq_some_iff_of_nodup hfirst, valueOf?_eq_some_iff_of_nodup hnodup, h.mem_iff]

theorem valueOf?_of_repeated (first : List (String × Json)) {second : List (String × Json)}
    (h : member.1 ∈ second.map Prod.fst) (key : String) :
    valueOf? key (first ++ member :: second) = valueOf? key (first ++ second) := by
  rw [valueOf?_append, valueOf?_append, valueOf?_cons]
  by_cases hkey : member.1 = key
  · rw [hkey] at h
    obtain ⟨value, hvalue⟩ := exists_valueOf? h
    rw [hvalue]
    rfl
  · rw [if_neg hkey, Option.or_none]

/-! ## The members by key -/

/-- Whether members are in ascending order of their keys, each key once. -/
def IsByKey (members : List (String × Json)) : Prop :=
  members.Pairwise fun first second => first.1 < second.1

theorem isByKey_cons : IsByKey (member :: members) ↔
    (∀ other ∈ members, member.1 < other.1) ∧ IsByKey members :=
  List.pairwise_cons

theorem mem_setMember_iff (h : IsByKey sorted) :
    member ∈ setMember key value sorted ↔
      member = (key, value) ∨ member ∈ sorted ∧ member.1 ≠ key := by
  induction sorted with
  | nil => simp [setMember]
  | cons first rest ih =>
    obtain ⟨hfirst, hrest⟩ := isByKey_cons.1 h
    rw [setMember]
    split
    · rename_i hlt
      have hne : ∀ other ∈ first :: rest, other.1 ≠ key := by
        intro other hother heq
        subst heq
        rcases List.mem_cons.1 hother with rfl | hmem
        · exact String.lt_irrefl _ hlt
        · exact String.lt_asymm hlt (hfirst other hmem)
      rw [List.mem_cons]
      exact or_congr_right ⟨fun hmem => ⟨hmem, hne member hmem⟩, And.left⟩
    · split
      · rename_i heq
        have hne : ∀ other ∈ rest, other.1 ≠ key := by
          intro other hmem hother
          exact String.ne_of_lt (hfirst other hmem) (heq.symm.trans hother.symm)
        rw [List.mem_cons, List.mem_cons]
        constructor
        · rintro (hmember | hmem)
          · exact .inl hmember
          · exact .inr ⟨.inr hmem, hne member hmem⟩
        · rintro (hmember | ⟨rfl | hmem, hmember⟩)
          · exact .inl hmember
          · exact absurd heq.symm hmember
          · exact .inr hmem
      · rename_i hne
        rw [List.mem_cons, List.mem_cons, ih hrest]
        constructor
        · rintro (rfl | hmember | ⟨hmem, hmember⟩)
          · exact .inr ⟨.inl rfl, Ne.symm hne⟩
          · exact .inl hmember
          · exact .inr ⟨.inr hmem, hmember⟩
        · rintro (hmember | ⟨rfl | hmem, hmember⟩)
          · exact .inr (.inl hmember)
          · exact .inl rfl
          · exact .inr (.inr ⟨hmem, hmember⟩)

theorem isByKey_setMember (h : IsByKey sorted) : IsByKey (setMember key value sorted) := by
  induction sorted with
  | nil => exact List.pairwise_singleton ..
  | cons first rest ih =>
    obtain ⟨hfirst, hrest⟩ := isByKey_cons.1 h
    rw [setMember]
    split
    · rename_i hlt
      refine isByKey_cons.2 ⟨fun other hother => ?_, h⟩
      rcases List.mem_cons.1 hother with rfl | hmem
      · exact hlt
      · exact String.lt_trans hlt (hfirst other hmem)
    · rename_i hlt
      split
      · rename_i heq
        exact isByKey_cons.2 ⟨fun other hmem => heq ▸ hfirst other hmem, hrest⟩
      · rename_i hne
        refine isByKey_cons.2 ⟨fun other hother => ?_, ih hrest⟩
        rcases (mem_setMember_iff hrest).1 hother with rfl | ⟨hmem, -⟩
        · rcases Std.lt_trichotomy key first.1 with hkey | hkey | hkey
          · exact absurd hkey hlt
          · exact absurd hkey hne
          · exact hkey
        · exact hfirst other hmem

theorem byKey_concat (members : List (String × Json)) (member : String × Json) :
    byKey (members ++ [member]) = setMember member.1 member.2 (byKey members) :=
  List.foldl_concat ..

theorem isByKey_byKey (members : List (String × Json)) : IsByKey (byKey members) := by
  induction members using List.reverseRecOn with
  | nil => exact .nil
  | append_singleton members member ih =>
    rw [byKey_concat]
    exact isByKey_setMember ih

/-- The members by key are those that count. -/
theorem mem_byKey_iff : member ∈ byKey members ↔ valueOf? member.1 members = some member.2 := by
  induction members using List.reverseRecOn with
  | nil => simp [byKey]
  | append_singleton members last ih =>
    obtain ⟨key, value⟩ := member
    obtain ⟨name, own⟩ := last
    rw [byKey_concat, mem_setMember_iff (isByKey_byKey members), ih, valueOf?_append,
      valueOf?_singleton]
    by_cases hkey : name = key
    · subst hkey
      rw [if_pos rfl, Option.some_or, Option.some.injEq]
      constructor
      · rintro (hlast | ⟨-, hne⟩)
        · exact (Prod.mk.inj hlast).2.symm
        · exact absurd rfl hne
      · rintro rfl
        exact .inl rfl
    · rw [if_neg hkey, Option.none_or]
      constructor
      · rintro (hlast | ⟨hvalue, -⟩)
        · exact absurd (Prod.mk.inj hlast).1.symm hkey
        · exact hvalue
      · exact fun hvalue => .inr ⟨hvalue, Ne.symm hkey⟩

theorem nodup_keys_of_isByKey (h : IsByKey members) : (members.map Prod.fst).Nodup :=
  List.pairwise_map.2 (h.imp String.ne_of_lt)

/-- The members by key have the values that count. -/
theorem valueOf?_byKey (key : String) (members : List (String × Json)) :
    valueOf? key (byKey members) = valueOf? key members :=
  Option.ext fun _ =>
    (valueOf?_eq_some_iff_of_nodup (nodup_keys_of_isByKey (isByKey_byKey members))).trans mem_byKey_iff

/-- Of the members that count and are found, the first by key is the one with the least key. -/
theorem findSome?_byKey_eq_some_iff {α : Type} {find? : String × Json → Option α} {found : α} :
    (byKey members).findSome? find? = some found ↔
      ∃ key value, valueOf? key members = some value ∧ find? (key, value) = some found ∧
        ∀ other own, valueOf? other members = some own → find? (other, own) ≠ none →
          other ≠ key → key < other := by
  have hsorted := isByKey_byKey members
  rw [List.findSome?_eq_some_iff]
  constructor
  · rintro ⟨before, ⟨key, value⟩, after, hsplit, hfound, hbefore⟩
    have hmem : (key, value) ∈ byKey members := by simp [hsplit]
    refine ⟨key, value, mem_byKey_iff.1 hmem, hfound, ?_⟩
    intro other own hown hother hne
    have hmem : (other, own) ∈ byKey members := mem_byKey_iff.2 hown
    rw [hsplit] at hmem hsorted
    rcases List.mem_append.1 hmem with hmem | hmem
    · exact absurd (hbefore _ hmem) hother
    · rcases List.mem_cons.1 hmem with heq | hmem
      · exact absurd (congrArg Prod.fst heq) hne
      · have hrest := isByKey_cons.1 (List.pairwise_append.1 hsorted).2.1
        exact hrest.1 _ hmem
  · rintro ⟨key, value, hvalue, hfound, hleast⟩
    have hmem : (key, value) ∈ byKey members := mem_byKey_iff.2 hvalue
    obtain ⟨before, after, hsplit⟩ := List.append_of_mem hmem
    refine ⟨before, (key, value), after, hsplit, hfound, fun other hother => ?_⟩
    have hmem : other ∈ byKey members := by
      rw [hsplit]
      exact List.mem_append_left _ hother
    rw [hsplit] at hsorted
    have hlt : other.1 < key :=
      (List.pairwise_append.1 hsorted).2.2 other hother (key, value) List.mem_cons_self
    by_contra hother
    have hgt := hleast other.1 other.2 (mem_byKey_iff.1 hmem) hother (String.ne_of_lt hlt)
    exact String.lt_asymm hlt hgt

/-- Members in order are determined by which they are. -/
theorem eq_of_isByKey {first second : List (String × Json)} (hfirst : IsByKey first)
    (hsecond : IsByKey second) (h : ∀ member, member ∈ first ↔ member ∈ second) :
    first = second := by
  have hperm := (List.perm_ext_iff_of_nodup (nodup_keys_of_isByKey hfirst).of_map
    (nodup_keys_of_isByKey hsecond).of_map).2 h
  exact hperm.eq_of_pairwise (fun _ _ _ _ hlt hgt => absurd hgt (String.lt_asymm hlt)) hfirst hsecond

theorem byKey_congr {first second : List (String × Json)}
    (h : ∀ key, valueOf? key first = valueOf? key second) : byKey first = byKey second := by
  refine eq_of_isByKey (isByKey_byKey first) (isByKey_byKey second) fun member => ?_
  rw [mem_byKey_iff, mem_byKey_iff, h]

end Json

end BehaviorRegistrar
