import BehaviorRegistrar.FileTree.Basic
import BehaviorRegistrar.Path
import BehaviorRegistrar.Text.Place

/-!
# Paths that are extended by names

A walk through a tree extends a path by one name after another. However the path is spelled, the
extension has the components of the path followed by the names, its last name is its file name, and
what leads from the path to it is spelled by the names alone.
-/

namespace BehaviorRegistrar

/-- Whether a name can be that of an entry. -/
def IsEntryName (name : Name) : Prop :=
  name ≠ [] ∧ name ≠ ['.'] ∧ name ≠ ['.', '.'] ∧ '/' ∉ name

namespace Text

theorem byteLength_append (s t : List Char) : byteLength (s ++ t) = byteLength s + byteLength t := by
  have hfold : ∀ (s : List Char) (n : Nat),
      s.foldl (fun n c => n + c.utf8Size) n = n + byteLength s := by
    intro s
    induction s with
    | nil => exact fun n => rfl
    | cons c r ih =>
      intro n
      rw [byteLength, List.foldl_cons, List.foldl_cons, ih, ih, Nat.zero_add, Nat.add_assoc]
  rw [byteLength, List.foldl_append, hfold, ← byteLength]

theorem pieces_append_mark (mark : Char) (s t : List Char) :
    pieces mark (s ++ mark :: t) = pieces mark s ++ pieces mark t := by
  induction s with
  | nil => simp [pieces]
  | cons c r ih =>
    simp only [List.cons_append, pieces, ih]
    split
    · rfl
    · cases hp : pieces mark r with
      | nil => exact absurd hp (pieces_ne_nil mark r)
      | cons first rest => rfl

theorem pieces_of_not_mem {mark : Char} {s : List Char} (h : mark ∉ s) : pieces mark s = [s] := by
  induction s with
  | nil => rfl
  | cons c r ih =>
    have hc : c ≠ mark := fun hc => h (by simp [hc])
    have hr : mark ∉ r := fun hr => h (by simp [hr])
    simp [pieces, hc, ih hr]

theorem not_mem_of_mem_pieces {mark : Char} {s piece : List Char} (h : piece ∈ pieces mark s) :
    mark ∉ piece := by
  induction s generalizing piece with
  | nil =>
    obtain rfl := List.mem_singleton.mp h
    simp
  | cons c r ih =>
    rw [pieces] at h
    split at h
    · obtain rfl | h := List.mem_cons.mp h
      · simp
      · exact ih h
    · rename_i hc
      split at h
      · obtain rfl := List.mem_singleton.mp h
        simpa using Ne.symm hc
      · rename_i first rest hpieces
        rw [hpieces] at ih
        obtain rfl | h := List.mem_cons.mp h
        · simpa [Ne.symm hc] using ih List.mem_cons_self
        · exact ih (List.mem_cons_of_mem first h)

theorem exists_pieces_eq_concat (mark : Char) (s : List Char) :
    ∃ init last front, pieces mark s = init ++ [last] ∧ mark ∉ last ∧ s = front ++ last ∧
      (front = [] ∨ ∃ body, front = body ++ [mark]) := by
  by_cases h : mark ∈ s
  · obtain ⟨after, before, hsplit, hafter⟩ :=
      List.eq_append_cons_of_mem (List.mem_reverse.mpr h)
    have hs : s = before.reverse ++ mark :: after.reverse := by
      simpa using congrArg List.reverse hsplit
    have hlast : mark ∉ after.reverse := by simpa using hafter
    refine ⟨pieces mark before.reverse, after.reverse, before.reverse ++ [mark], ?_, hlast, ?_,
      .inr ⟨_, rfl⟩⟩
    · rw [hs, pieces_append_mark, pieces_of_not_mem hlast]
    · simp [hs]
  · exact ⟨[], s, [], by rw [pieces_of_not_mem h]; rfl, h, rfl, .inl rfl⟩

end Text

namespace Path

/-- The path of what is reached by names from a path. -/
def descend (base : Path) (names : Location) : Path :=
  names.foldl (fun path name => path.join ⟨name⟩) base

@[simp] theorem descend_nil (base : Path) : base.descend [] = base := rfl

@[simp] theorem descend_cons (base : Path) (name : Name) (names : Location) :
    base.descend (name :: names) = (base.join ⟨name⟩).descend names := rfl

theorem descend_append (base : Path) (first rest : Location) :
    base.descend (first ++ rest) = (base.descend first).descend rest :=
  List.foldl_append

theorem isAbsolute_name {name : Name} (h : IsEntryName name) :
    (⟨name⟩ : Path).isAbsolute = false := by
  obtain ⟨-, -, -, hslash⟩ := h
  cases name with
  | nil => rfl
  | cons c r =>
    have hc : c ≠ '/' := fun hc => hslash (by simp [hc])
    simp [isAbsolute, hc]

theorem parts_name {name : Name} (h : IsEntryName name) : (⟨name⟩ : Path).parts = [name] :=
  Text.pieces_of_not_mem h.2.2.2

/-- A relative path is put behind a spelling that is empty or ends in a slash. -/
theorem exists_spelling_join (base : Path) {path : Path} (h : path.isAbsolute = false) :
    ∃ front, (base.join path).spelling = front ++ path.spelling ∧
      (front = [] ∧ base.spelling = [] ∨ ∃ body, front = body ++ ['/'] ∧
        (base.spelling = body ∧ body ≠ [] ∨ base.spelling = body ++ ['/'])) := by
  by_cases hempty : base.spelling = []
  · exact ⟨[], by simp [join, h, hempty], .inl ⟨rfl, hempty⟩⟩
  · by_cases hlast : base.spelling.getLast? = some '/'
    · obtain ⟨body, hbody⟩ := List.getLast?_eq_some_iff.mp hlast
      exact ⟨base.spelling, by simp [join, h, hlast], .inr ⟨body, hbody, .inr hbody⟩⟩
    · refine ⟨base.spelling ++ ['/'], ?_, .inr ⟨_, rfl, .inl ⟨rfl, hempty⟩⟩⟩
      simp [join, h, hempty, hlast]

/-- The parts of a relative path come after those of the path it is taken from, in the place of an
empty last part if there is one. -/
theorem exists_parts_join (base : Path) {path : Path} (h : path.isAbsolute = false) :
    ∃ front, (base.join path).parts = front ++ path.parts ∧
      (base.parts = front ++ [[]] ∨ base.parts = front ∧ front ≠ []) := by
  obtain ⟨front, hjoin, ⟨rfl, hbase⟩ | ⟨body, rfl, hbase⟩⟩ := exists_spelling_join base h
  · exact ⟨[], by simp [parts, hjoin], .inl (by simp [parts, hbase, Text.pieces])⟩
  · refine ⟨Text.pieces '/' body, ?_, ?_⟩
    · rw [parts, hjoin, List.append_assoc]
      exact Text.pieces_append_mark '/' body path.spelling
    · obtain ⟨hbase, -⟩ | hbase := hbase
      · exact .inr ⟨by rw [parts, hbase], Text.pieces_ne_nil '/' body⟩
      · exact .inl (by rw [parts, hbase, Text.pieces_append_mark]; rfl)

theorem isAbsolute_join (base : Path) {path : Path} (h : path.isAbsolute = false) :
    (base.join path).isAbsolute = base.isAbsolute := by
  obtain ⟨front, hjoin, ⟨rfl, hbase⟩ | ⟨body, rfl, hbase⟩⟩ := exists_spelling_join base h
  · have hpath : path.spelling.head? ≠ some '/' := by simpa [isAbsolute] using h
    simp [isAbsolute, hjoin, hbase, hpath]
  · cases body with
    | nil =>
      obtain ⟨-, hne⟩ | hbase := hbase
      · exact absurd rfl hne
      · simp [isAbsolute, hjoin, hbase]
    | cons c r =>
      obtain ⟨hbase, -⟩ | hbase := hbase <;> simp [isAbsolute, hjoin, hbase]

theorem component?_name {name : Name} (h : IsEntryName name) :
    component? name = some (.name name) := by
  obtain ⟨hempty, hhere, hup, -⟩ := h
  fun_cases component? name <;> first | contradiction | rfl

theorem parts_spell {names : Location} (hne : names ≠ []) (h : ∀ name ∈ names, IsEntryName name) :
    (⟨spell (names.map .name)⟩ : Path).parts = names := by
  induction names with
  | nil => exact absurd rfl hne
  | cons name names ih =>
    have hname := h name List.mem_cons_self
    cases names with
    | nil => exact parts_name hname
    | cons next rest =>
      have hrest := ih (by simp) fun other hother => h other (List.mem_cons_of_mem name hother)
      rw [parts] at hrest
      rw [parts, List.map_cons, List.map_cons, spell, spell.spellOne, Text.pieces_append_mark,
        Text.pieces_of_not_mem hname.2.2.2, ← List.map_cons, hrest, List.singleton_append]
      simp

theorem isAbsolute_spell {names : Location} (h : ∀ name ∈ names, IsEntryName name) :
    (⟨spell (names.map .name)⟩ : Path).isAbsolute = false := by
  cases names with
  | nil => rfl
  | cons name names =>
    have hname := h name List.mem_cons_self
    have hfirst := isAbsolute_name hname
    obtain ⟨c, r, rfl⟩ := List.exists_cons_of_ne_nil hname.1
    cases names with
    | nil => exact hfirst
    | cons next rest => simpa [isAbsolute, spell, spell.spellOne] using hfirst

theorem filterMap_component?_names {names : Location} (h : ∀ name ∈ names, IsEntryName name) :
    names.filterMap component? = names.map .name := by
  induction names with
  | nil => rfl
  | cons name names ih =>
    rw [List.filterMap_cons_some (component?_name (h name List.mem_cons_self)), List.map_cons,
      ih fun other hother => h other (List.mem_cons_of_mem name hother)]

/-- The path that names spell has these names for components. -/
theorem components_spell {names : Location} (hne : names ≠ []) (h : ∀ name ∈ names, IsEntryName name) :
    (⟨spell (names.map .name)⟩ : Path).components = names.map .name := by
  have hhead : names.head? ≠ some ['.'] := fun hhead => (h _ (List.mem_of_head? hhead)).2.1 rfl
  rw [components, isAbsolute_spell h, parts_spell hne h, filterMap_component?_names h]
  simp [hhead]

/-- Names that are taken from a path come after its components. -/
theorem components_join_spell (base : Path) {names : Location} (hne : names ≠ [])
    (h : ∀ name ∈ names, IsEntryName name) :
    (base.join ⟨spell (names.map .name)⟩).components = base.components ++ names.map .name := by
  have habsolute := isAbsolute_join base (isAbsolute_spell h)
  obtain ⟨front, hjoin, hbase⟩ := exists_parts_join base (isAbsolute_spell h)
  rw [parts_spell hne h] at hjoin
  generalize base.join ⟨spell (names.map .name)⟩ = joined at habsolute hjoin ⊢
  have hhead : joined.parts.head? = some ['.'] ↔ base.parts.head? = some ['.'] := by
    cases front with
    | nil =>
      have hfirst : names.head? ≠ some ['.'] := fun hhead => (h _ (List.mem_of_head? hhead)).2.1 rfl
      obtain hbase | ⟨-, hne⟩ := hbase
      · simp [hjoin, hbase, hfirst]
      · exact absurd rfl hne
    | cons first rest => obtain hbase | ⟨hbase, -⟩ := hbase <;> simp [hjoin, hbase]
  have hnames : joined.parts.filterMap component? =
      base.parts.filterMap component? ++ names.map .name := by
    obtain hbase | ⟨hbase, -⟩ := hbase <;>
      simp [hjoin, hbase, filterMap_component?_names h, component?]
  simp only [components, habsolute, hhead, hnames, List.append_assoc]

theorem components_join_name (base : Path) {name : Name} (h : IsEntryName name) :
    (base.join ⟨name⟩).components = base.components ++ [.name name] :=
  components_join_spell base (List.cons_ne_nil name []) (by simpa using h)

theorem components_descend (base : Path) {names : Location} (h : ∀ name ∈ names, IsEntryName name) :
    (base.descend names).components = base.components ++ names.map .name := by
  induction names generalizing base with
  | nil => simp
  | cons name names ih =>
    rw [descend_cons, ih _ fun other hother => h other (List.mem_cons_of_mem name hother),
      components_join_name base (h name List.mem_cons_self)]
    simp

theorem isAbsolute_descend (base : Path) {names : Location} (h : ∀ name ∈ names, IsEntryName name) :
    (base.descend names).isAbsolute = base.isAbsolute := by
  induction names generalizing base with
  | nil => rfl
  | cons name names ih =>
    rw [descend_cons, ih _ fun other hother => h other (List.mem_cons_of_mem name hother),
      isAbsolute_join base (isAbsolute_name (h name List.mem_cons_self))]

/-- Names come after the parts of the path that they extend. -/
theorem exists_parts_descend (base : Path) {names : Location} (hne : names ≠ [])
    (h : ∀ name ∈ names, IsEntryName name) :
    ∃ front, (base.descend names).parts = front ++ names ∧
      (base.parts = front ++ [[]] ∨ base.parts = front) := by
  induction names generalizing base with
  | nil => exact absurd rfl hne
  | cons name names ih =>
    have hname := h name List.mem_cons_self
    obtain ⟨front, hjoin, hbase⟩ := exists_parts_join base (isAbsolute_name hname)
    rw [parts_name hname] at hjoin
    have hfront : base.parts = front ++ [[]] ∨ base.parts = front := hbase.imp_right And.left
    by_cases hrest : names = []
    · exact ⟨front, by simpa [hrest] using hjoin, hfront⟩
    · obtain ⟨before, hdescend, hbefore⟩ :=
        ih (base.join ⟨name⟩) hrest fun other hother => h other (List.mem_cons_of_mem name hother)
      rw [hjoin] at hbefore
      have hlast : front ++ [name] ≠ before ++ [[]] := by
        intro heq
        exact hname.1 (List.head_eq_of_cons_eq (List.append_inj' heq rfl).2)
      rw [← hbefore.resolve_left hlast] at hdescend
      exact ⟨front, by simpa using hdescend, hfront⟩

theorem spelling_join_nil (base : Path) :
    (base.join ⟨[]⟩).spelling = [] ∨ (base.join ⟨[]⟩).spelling.getLast? = some '/' := by
  obtain ⟨front, hjoin, ⟨hfront, -⟩ | ⟨body, hbody, -⟩⟩ :=
    exists_spelling_join base (show (⟨[]⟩ : Path).isAbsolute = false from rfl)
  · exact .inl (by simp [hjoin, hfront])
  · exact .inr (by simp [hjoin, hbody])

theorem below?_descend (root : Path) {names : Location} (h : ∀ name ∈ names, IsEntryName name) :
    root.below? (root.descend names) = some ⟨spell (names.map .name)⟩ := by
  simp [below?, components_descend root h]

theorem not_mem_fileName? {path : Path} {name : List Char} (h : path.fileName? = some name) :
    '/' ∉ name := by
  rw [fileName?] at h
  split at h
  · cases h
  · rename_i c r _
    dsimp only at h
    split at h
    · cases h
    · obtain rfl := Option.some.inj h
      intro hslash
      have := List.all_takeWhile (p := (· != '/')) (l := c :: r)
      simpa using List.all_eq_true.mp this '/' (List.mem_reverse.mp hslash)

theorem exists_spelling_join_name (base : Path) {name : Name} (h : IsEntryName name) :
    ∃ front, (base.join ⟨name⟩).spelling = front ++ name ∧
      (front = [] ∨ ∃ body, front = body ++ ['/']) := by
  obtain ⟨front, hjoin, hfront⟩ := exists_spelling_join base (isAbsolute_name h)
  refine ⟨front, hjoin, ?_⟩
  obtain ⟨hempty, -⟩ | ⟨body, hbody, -⟩ := hfront
  · exact .inl hempty
  · exact .inr ⟨body, hbody⟩

end Path

end BehaviorRegistrar
