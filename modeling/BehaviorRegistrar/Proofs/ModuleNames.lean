import BehaviorRegistrar.ModuleId
import Mathlib.Data.List.TakeWhile

/-!
# Which identifiers are those of behavior files, and their names

The base name of an identifier is what stands behind its last separator. It is that of a behavior
file when it ends in the word for one and an extension without a dot, with something in front; the
module registers under the longest start of the base name that has no dot.
-/

namespace BehaviorRegistrar.ModuleId

def IsDirectoryPrefix (front : List Char) : Prop :=
  front = [] ∨ ∃ above c, front = above ++ [c] ∧ isSeparator c

/-- Whether a text is what stands behind the last separator of an identifier. -/
structure IsBase (id base : List Char) : Prop where
  whole : ∃ front, IsDirectoryPrefix front ∧ id = front ++ base
  plain : ∀ c ∈ base, ¬ isSeparator c

variable {id base front name extension : List Char}

theorem baseName_append (hfront : IsDirectoryPrefix front) (name : List Char) :
    baseName (front ++ name) = baseName name := by
  have hstop : front.reverse.takeWhile (fun c => !isSeparator c) = [] := by
    obtain rfl | ⟨above, c, rfl, hc⟩ := hfront
    · rfl
    · simp [hc]
  rw [baseName, baseName, List.reverse_append, List.takeWhile_append, hstop, List.append_nil]
  split
  · rename_i hall
    rw [List.Sublist.eq_of_length (List.takeWhile_sublist _) hall]
  · rfl

theorem baseName_of_plain (h : ∀ c ∈ base, ¬ isSeparator c) : baseName base = base := by
  have hall : base.reverse.takeWhile (fun c => !isSeparator c) = base.reverse :=
    List.takeWhile_eq_self_iff.mpr fun c hc => by simpa using h c (List.mem_reverse.mp hc)
  rw [baseName, hall, List.reverse_reverse]

theorem isBase_baseName (id : List Char) : IsBase id (baseName id) where
  whole := by
    refine ⟨(id.reverse.dropWhile fun c => !isSeparator c).reverse, ?_, ?_⟩
    · cases hdrop : id.reverse.dropWhile fun c => !isSeparator c with
      | nil => exact .inl rfl
      | cons c above =>
        have hc := List.head?_dropWhile_not (fun c => !isSeparator c) id.reverse
        rw [hdrop] at hc
        exact .inr ⟨above.reverse, c, List.reverse_cons, by simpa using hc⟩
    · rw [baseName, ← List.reverse_append, List.takeWhile_append_dropWhile, List.reverse_reverse]
  plain c hc := by
    have hall := List.all_takeWhile (p := fun c => !isSeparator c) (l := id.reverse)
    simpa using List.all_eq_true.mp hall c (List.mem_reverse.mp hc)

theorem isBase_iff : IsBase id base ↔ base = baseName id := by
  constructor
  · rintro ⟨⟨front, hfront, rfl⟩, hplain⟩
    rw [baseName_append hfront, baseName_of_plain hplain]
  · rintro rfl
    exact isBase_baseName id

theorem baseName_append_plain (id : List Char) (h : ∀ c ∈ name, ¬ isSeparator c) :
    baseName (id ++ name) = baseName id ++ name := by
  obtain ⟨⟨front, hfront, hid⟩, hplain⟩ := isBase_baseName id
  refine (isBase_iff.mp ⟨⟨front, hfront, ?_⟩, fun c hc => ?_⟩).symm
  · rw [← List.append_assoc, ← hid]
  · exact (List.mem_append.mp hc).elim (hplain c) (h c)

theorem stem?_append (hname : name ≠ []) (hextension : '.' ∉ extension) :
    stem? (name ++ '.' :: extension) = some name := by
  have hdrop : (name ++ '.' :: extension).reverse.dropWhile (· != '.') = '.' :: name.reverse := by
    rw [List.reverse_append, List.reverse_cons, List.append_assoc, List.dropWhile_append_of_pos]
    · simp
    · intro c hc
      have hne : c ≠ '.' := fun h => hextension (h ▸ List.mem_reverse.mp hc)
      simpa using hne
  rw [stem?, hdrop]
  cases hreverse : name.reverse with
  | nil => exact absurd (List.reverse_eq_nil_iff.mp hreverse) hname
  | cons c rest => simp [← hreverse]

theorem stem?_of_no_extension (h : '.' ∉ base ∨ ∃ extension, '.' ∉ extension ∧ base = '.' :: extension) :
    stem? base = none := by
  obtain hnone | ⟨extension, hextension, rfl⟩ := h
  · have hdrop : base.reverse.dropWhile (· != '.') = [] := by
      refine List.dropWhile_eq_nil_iff.mpr fun c hc => ?_
      have hne : c ≠ '.' := fun h => hnone (h ▸ List.mem_reverse.mp hc)
      simpa using hne
    rw [stem?, hdrop]
  · have hdrop : ('.' :: extension).reverse.dropWhile (· != '.') = ['.'] := by
      rw [List.reverse_cons, List.dropWhile_append_of_pos]
      · simp
      · intro c hc
        have hne : c ≠ '.' := fun h => hextension (h ▸ List.mem_reverse.mp hc)
        simpa using hne
    rw [stem?, hdrop]

/-- A base name is cut at its last dot, unless that comes first. -/
theorem stem?_eq_some_iff :
    stem? base = some name ↔
      name ≠ [] ∧ ∃ extension, '.' ∉ extension ∧ base = name ++ '.' :: extension := by
  constructor
  · intro h
    by_cases hdot : '.' ∈ base
    · obtain ⟨last, rest, hsplit, hlast⟩ := List.eq_append_cons_of_mem (List.mem_reverse.mpr hdot)
      obtain rfl : base = rest.reverse ++ '.' :: last.reverse := by
        simpa using congrArg List.reverse hsplit
      have hextension : '.' ∉ last.reverse := by simpa using hlast
      by_cases hrest : rest.reverse = []
      · rw [hrest, List.nil_append, stem?_of_no_extension (.inr ⟨_, hextension, rfl⟩)] at h
        cases h
      · rw [stem?_append hrest hextension] at h
        obtain rfl := Option.some.inj h
        exact ⟨hrest, _, hextension, rfl⟩
    · rw [stem?_of_no_extension (.inl hdot)] at h
      cases h
  · rintro ⟨hname, extension, hextension, rfl⟩
    exact stem?_append hname hextension

/-- Dropping the extension does not touch what stands before the first dot. -/
theorem nameOf_eq (id : List Char) : nameOf id = (baseName id).takeWhile (· != '.') := by
  rw [nameOf]
  cases hstem : stem? (baseName id) with
  | none => rfl
  | some name =>
    obtain ⟨-, extension, -, hbase⟩ := stem?_eq_some_iff.mp hstem
    rw [Option.getD_some, hbase, List.takeWhile_append]
    split
    · rename_i hall
      simp [(List.takeWhile_sublist _).eq_of_length hall]
    · rfl

theorem prefix_takeWhile {p : Char → Bool} {start text : List Char} (h : start <+: text)
    (hstart : ∀ c ∈ start, p c) : start <+: text.takeWhile p := by
  obtain ⟨rest, rfl⟩ := h
  rw [List.takeWhile_append_of_pos hstart]
  exact List.prefix_append start _

/-- The name of a module is the longest start of its base name without a dot. -/
theorem nameOf_spec (id : List Char) :
    nameOf id <+: baseName id ∧ '.' ∉ nameOf id ∧
      ∀ start, start <+: baseName id → '.' ∉ start → start <+: nameOf id := by
  rw [nameOf_eq]
  refine ⟨List.takeWhile_prefix _, fun hdot => ?_, fun start hstart hdot => ?_⟩
  · have hall := List.all_takeWhile (p := (· != '.')) (l := baseName id)
    simpa using List.all_eq_true.mp hall '.' hdot
  · refine prefix_takeWhile hstart fun c hc => ?_
    have hne : c ≠ '.' := fun h => hdot (h ▸ hc)
    simpa using hne

theorem nameOf_eq_nil_iff : nameOf id = [] ↔ baseName id = [] ∨ (baseName id).head? = some '.' := by
  rw [nameOf_eq]
  cases baseName id with
  | nil => simp
  | cons c rest => by_cases hc : c = '.' <;> simp [hc]

/-- A behavior file goes by a name, the word for one, and an extension without a dot. -/
theorem isBehavior_iff :
    isBehavior id ↔
      ∃ name extension, name ≠ [] ∧ '.' ∉ extension ∧
        baseName id = name ++ behaviorMark ++ '.' :: extension := by
  rw [isBehavior]
  constructor
  · intro h
    cases hstem : stem? (baseName id) with
    | none => simp [hstem] at h
    | some stem =>
      simp only [hstem, Bool.and_eq_true, List.isSuffixOf_iff_suffix, bne_iff_ne] at h
      obtain ⟨⟨name, rfl⟩, hne⟩ := h
      obtain ⟨-, extension, hextension, hbase⟩ := stem?_eq_some_iff.mp hstem
      refine ⟨name, extension, ?_, hextension, hbase⟩
      rintro rfl
      exact hne (List.nil_append _)
  · rintro ⟨name, extension, hname, hextension, hbase⟩
    have hstem : stem? (baseName id) = some (name ++ behaviorMark) :=
      stem?_eq_some_iff.mpr ⟨by simp [hname], extension, hextension, hbase⟩
    simp only [hstem, Bool.and_eq_true, List.isSuffixOf_iff_suffix, bne_iff_ne]
    refine ⟨List.suffix_append name behaviorMark, fun heq => hname ?_⟩
    simpa using congrArg List.length heq

/-- A plain name with the word for a behavior file and a plain extension is that of a behavior file
in every directory, and the module goes by that name. -/
theorem isBehavior_of_plain (hfront : IsDirectoryPrefix front) (hname : name ≠ [])
    (hplain : ∀ c ∈ name, c ≠ '.' ∧ ¬ isSeparator c)
    (hextension : ∀ c ∈ extension, c ≠ '.' ∧ ¬ isSeparator c) :
    isBehavior (front ++ (name ++ behaviorMark ++ '.' :: extension)) ∧
      nameOf (front ++ (name ++ behaviorMark ++ '.' :: extension)) = name := by
  have hmark : behaviorMark.all (fun c => !isSeparator c) = true := by decide
  have hbase : baseName (front ++ (name ++ behaviorMark ++ '.' :: extension)) =
      name ++ behaviorMark ++ '.' :: extension := by
    rw [baseName_append hfront, baseName_of_plain]
    intro c hc
    simp only [List.mem_append, List.mem_cons] at hc
    obtain (hc | hc) | rfl | hc := hc
    · exact (hplain c hc).2
    · simpa using List.all_eq_true.mp hmark c hc
    · decide
    · exact (hextension c hc).2
  have hdots : '.' ∉ extension := fun hdot => (hextension '.' hdot).1 rfl
  refine ⟨isBehavior_iff.mpr ⟨name, extension, hname, hdots, hbase⟩, ?_⟩
  rw [nameOf_eq, hbase, List.append_assoc, List.takeWhile_append_of_pos]
  · have hfirst : behaviorMark = '.' :: "behavior".toList := by decide
    simp [hfirst]
  · intro c hc
    simpa using (hplain c hc).1

private theorem toList_behaviorWord : ".behavior.".toList = behaviorMark ++ ['.'] := by decide

/-- An identifier is that of a behavior file exactly when its base name is a name, the word for a
behavior file and an extension, and every module registers under the longest start of its base name
without a dot. So a file that is called `name.behavior.extension` in any directory registers as `name`,
and the name of a behavior file is empty exactly when its base name starts with a dot. -/
theorem routed_and_named :
    (∀ id : String, ∃ base,
      (∀ other, IsBase id.toList other ↔ other = base) ∧
      (isBehaviorFile id ↔
        ∃ name extension, name ≠ [] ∧ '.' ∉ extension ∧
          base = name ++ ".behavior.".toList ++ extension) ∧
      (moduleName id).toList <+: base ∧ '.' ∉ (moduleName id).toList ∧
      (∀ start, start <+: base → '.' ∉ start → start <+: (moduleName id).toList) ∧
      (isBehaviorFile id → (moduleName id = "" ↔ base.head? = some '.'))) ∧
    ∀ directory name extension : List Char, IsDirectoryPrefix directory → name ≠ [] →
      (∀ c ∈ name, c ≠ '.' ∧ ¬ isSeparator c) → (∀ c ∈ extension, c ≠ '.' ∧ ¬ isSeparator c) →
        let id := String.ofList (directory ++ (name ++ ".behavior.".toList ++ extension))
        isBehaviorFile id ∧ moduleName id = String.ofList name := by
  have hword : ∀ name extension : List Char,
      name ++ ".behavior.".toList ++ extension = name ++ behaviorMark ++ '.' :: extension := by
    intro name extension
    simp [toList_behaviorWord]
  simp only [hword, isBehaviorFile, moduleName, String.toList_ofList]
  constructor
  · intro id
    obtain ⟨hstart, hdot, hlongest⟩ := nameOf_spec id.toList
    refine ⟨baseName id.toList, fun other => isBase_iff, isBehavior_iff, hstart, hdot, hlongest, ?_⟩
    intro hbehavior
    obtain ⟨name, extension, hname, -, hbase⟩ := isBehavior_iff.mp hbehavior
    rw [← String.ofList_nil, String.ofList_inj, nameOf_eq_nil_iff]
    simp [hbase, hname]
  · intro directory name extension hdirectory hname hplain hextension
    obtain ⟨hbehavior, hnamed⟩ :=
      isBehavior_of_plain hdirectory hname hplain hextension
    exact ⟨hbehavior, congrArg String.ofList hnamed⟩

/-- Either slash ends the directory of a behavior file. -/
theorem routed_and_named_menu :
    IsDirectoryPrefix "C:\\js/".toList ∧ isBehaviorFile "C:\\js/menu.behavior.js" ∧
      moduleName "C:\\js/menu.behavior.js" = "menu" := by
  have hdirectory : IsDirectoryPrefix "C:\\js/".toList :=
    .inr ⟨"C:\\js".toList, '/', by decide, by decide⟩
  have hnamed := routed_and_named.2 "C:\\js/".toList "menu".toList "js".toList hdirectory (by decide)
    (by simp [isSeparator]) (by simp [isSeparator])
  exact ⟨hdirectory, hnamed⟩

end BehaviorRegistrar.ModuleId
