import BehaviorRegistrar.Proofs.Disk.Places

/-!
# Straight paths

A straight path starts at the root of the disk and has no `..`, so it goes down by its names alone and
leads to these names if it leads anywhere. Its parent is straight too, and goes by the names but the
last.
-/

namespace BehaviorRegistrar

def Path.leads (part : List Char) : Bool := part != [] && part != ['.']

namespace Path

/-- The parts of a path that lead somewhere else. -/
def names (path : Path) : Location := path.parts.filter leads

/-- Whether a path starts at the root of the disk and never leads back. -/
structure IsStraight (path : Path) : Prop where
  absolute : path.isAbsolute = true
  down : ['.', '.'] ∉ path.names

/-- Whether a path ends in a name, with no slash behind it. -/
def EndsInName (path : Path) : Prop := ∃ front name, path.parts = front ++ [name] ∧ IsEntryName name

theorem leads_eq_false_iff {part : List Char} : leads part = false ↔ part = [] ∨ part = ['.'] := by
  simp [leads, Decidable.or_iff_not_imp_left]

theorem leads_name {name : Name} (h : IsEntryName name) : leads name = true := by
  simp [leads, h.1, h.2.1]

theorem filter_leads_names {names : Location} (h : ∀ name ∈ names, IsEntryName name) :
    names.filter leads = names :=
  List.filter_eq_self.mpr fun name hname => leads_name (h name hname)

theorem IsStraight.isEntryName {path : Path} (h : path.IsStraight) {name : Name}
    (hname : name ∈ path.names) : IsEntryName name := by
  obtain ⟨hpart, hleads⟩ := List.mem_filter.mp hname
  simp only [leads, bne_iff_ne, Bool.and_eq_true] at hleads
  refine ⟨hleads.1, hleads.2, ?_, Text.not_mem_of_mem_pieces hpart⟩
  rintro rfl
  exact h.down hname

theorem IsStraight.spelling_ne_nil {path : Path} (h : path.IsStraight) : path.spelling ≠ [] := by
  intro hempty
  have habsolute := h.absolute
  simp [isAbsolute, hempty] at habsolute

theorem names_of_parts {path : Path} {front : List (List Char)} {name : Name}
    (h : path.parts = front ++ [name]) (hname : IsEntryName name) :
    path.names = front.filter leads ++ [name] := by
  have hlast : [name].filter leads = [name] := filter_leads_names (by simpa using hname)
  rw [names, h, List.filter_append, hlast]

theorem EndsInName.exists_names {path : Path} (h : path.EndsInName) :
    ∃ names name, path.names = names ++ [name] := by
  obtain ⟨front, name, hparts, hname⟩ := h
  exact ⟨_, name, names_of_parts hparts hname⟩

theorem exists_parts_of_spelling {path : Path} {front : List Char} {name : Name}
    (h : IsEntryName name) (hspelling : path.spelling = front ++ name)
    (hfront : front = [] ∨ ∃ body, front = body ++ ['/']) :
    ∃ before, path.parts = before ++ [name] := by
  have hlast := Text.pieces_of_not_mem h.2.2.2
  obtain rfl | ⟨body, rfl⟩ := hfront
  · exact ⟨[], by rw [parts, hspelling, List.nil_append, hlast]; rfl⟩
  · refine ⟨Text.pieces '/' body, ?_⟩
    rw [parts, hspelling, List.append_assoc, List.singleton_append, Text.pieces_append_mark, hlast]

theorem endsInName_of_spelling {path : Path} {front : List Char} {name : Name}
    (h : IsEntryName name) (hspelling : path.spelling = front ++ name)
    (hfront : front = [] ∨ ∃ body, front = body ++ ['/']) : path.EndsInName := by
  obtain ⟨before, hparts⟩ := exists_parts_of_spelling h hspelling hfront
  exact ⟨before, name, hparts, h⟩

/-- A path that is extended by names has these names behind its own. -/
theorem names_descend (base : Path) {names : Location} (h : ∀ name ∈ names, IsEntryName name) :
    (base.descend names).names = base.names ++ names := by
  by_cases hne : names = []
  · simp [hne]
  · obtain ⟨front, hparts, hbase⟩ := exists_parts_descend base hne h
    have hfront : base.names = front.filter leads := by
      obtain hbase | hbase := hbase <;> simp [Path.names, hbase, leads]
    rw [Path.names, hparts, List.filter_append, filter_leads_names h, hfront]

theorem names_join_spell (base : Path) {names : Location} (hne : names ≠ [])
    (h : ∀ name ∈ names, IsEntryName name) :
    (base.join ⟨spell (names.map .name)⟩).names = base.names ++ names := by
  obtain ⟨front, hparts, hbase⟩ := exists_parts_join base (isAbsolute_spell h)
  have hfront : base.names = front.filter leads := by
    obtain hbase | ⟨hbase, -⟩ := hbase <;> simp [Path.names, hbase, leads]
  rw [Path.names, hparts, parts_spell hne h, List.filter_append, filter_leads_names h, hfront]

theorem endsInName_descend (base : Path) {names : Location} (hne : names ≠ [])
    (h : ∀ name ∈ names, IsEntryName name) : (base.descend names).EndsInName := by
  obtain ⟨front, hparts, -⟩ := exists_parts_descend base hne h
  obtain ⟨init, last, rfl⟩ := List.eq_nil_or_concat names |>.resolve_left hne
  exact ⟨front ++ init, last, by simpa using hparts, h last (by simp)⟩

theorem endsInName_join_spell (base : Path) {names : Location} (hne : names ≠ [])
    (h : ∀ name ∈ names, IsEntryName name) :
    (base.join ⟨spell (names.map .name)⟩).EndsInName := by
  obtain ⟨front, hparts, -⟩ := exists_parts_join base (isAbsolute_spell h)
  rw [parts_spell hne h] at hparts
  obtain ⟨init, last, rfl⟩ := List.eq_nil_or_concat names |>.resolve_left hne
  exact ⟨front ++ init, last, by simpa using hparts, h last (by simp)⟩

private theorem isStraight_of_names {base path : Path} {names : Location} (hbase : base.IsStraight)
    (habsolute : path.isAbsolute = base.isAbsolute) (hpath : path.names = base.names ++ names)
    (h : ∀ name ∈ names, IsEntryName name) : path.IsStraight where
  absolute := habsolute.trans hbase.absolute
  down hup := by
    rw [hpath] at hup
    obtain hup | hup := List.mem_append.mp hup
    · exact hbase.down hup
    · exact (h _ hup).2.2.1 rfl

theorem isStraight_descend {base : Path} (hbase : base.IsStraight) {names : Location}
    (h : ∀ name ∈ names, IsEntryName name) : (base.descend names).IsStraight :=
  isStraight_of_names hbase (isAbsolute_descend base h) (names_descend base h) h

theorem isStraight_join_spell {base : Path} (hbase : base.IsStraight) {names : Location}
    (hne : names ≠ []) (h : ∀ name ∈ names, IsEntryName name) :
    (base.join ⟨spell (names.map .name)⟩).IsStraight :=
  isStraight_of_names hbase (isAbsolute_join base (isAbsolute_spell h)) (names_join_spell base hne h) h

private theorem filterMap_component? {parts : List (List Char)}
    (h : Component.up ∉ parts.filterMap component?) :
    ['.', '.'] ∉ parts.filter leads ∧
      parts.filterMap component? = (parts.filter leads).map .name := by
  induction parts with
  | nil => simp
  | cons part rest ih =>
    cases hpart : component? part with
    | none =>
      rw [List.filterMap_cons_none hpart] at h ⊢
      have hidle : leads part = false := by
        fun_cases component? part <;> simp_all [component?, leads]
      rw [List.filter_cons_of_neg (by simp [hidle])]
      exact ih h
    | some component =>
      rw [List.filterMap_cons_some hpart, List.mem_cons, not_or] at h
      rw [List.filterMap_cons_some hpart]
      obtain ⟨hcomponent, hrest⟩ := h
      obtain ⟨hdown, hnames⟩ := ih hrest
      have hname : component = .name part ∧ leads part = true ∧ part ≠ ['.', '.'] := by
        unfold component? at hpart
        split at hpart
        · cases hpart
        · cases hpart
        · exact absurd (Option.some.inj hpart) hcomponent
        · rename_i hempty hhere hup
          exact ⟨(Option.some.inj hpart).symm, by simpa [leads] using ⟨hempty, hhere⟩, hup⟩
      obtain ⟨rfl, hleads, hup⟩ := hname
      rw [List.filter_cons_of_pos hleads, hnames]
      exact ⟨by simp [Ne.symm hup, hdown], rfl⟩

/-- An absolute path without the component `..` is straight, and its components are its names. -/
theorem isStraight_of_components {path : Path} (habsolute : path.isAbsolute = true)
    (h : Component.up ∉ path.components) :
    path.IsStraight ∧ path.components = .root :: path.names.map .name := by
  simp only [components, habsolute, ↓reduceIte, List.singleton_append, List.mem_cons, not_or] at h ⊢
  obtain ⟨hdown, hnames⟩ := filterMap_component? h.2
  exact ⟨⟨habsolute, hdown⟩, by rw [hnames, names]⟩

private def trimmed (s : List Char) : List Char := (dropIdle s.reverse).reverse

private theorem trimmed_slash (s : List Char) : trimmed (s ++ ['/']) = trimmed s := by
  simp [trimmed, dropIdle]

/-- Trimming a spelling leaves its names, and nothing else at its end. -/
private theorem trimmed_spec (s : List Char) :
    trimmed s <+: s ∧
      (Text.pieces '/' (trimmed s)).filter leads = (Text.pieces '/' s).filter leads ∧
      (trimmed s = [] ∨ ∃ front name, Text.pieces '/' (trimmed s) = front ++ [name] ∧
        leads name = true) := by
  rw [trimmed]
  obtain ⟨x, rfl⟩ : ∃ x, s = x.reverse := ⟨s.reverse, by simp⟩
  rw [List.reverse_reverse]
  fun_induction dropIdle x with
  | case1 r ih =>
    obtain ⟨hstart, hnames, hend⟩ := ih
    rw [List.reverse_cons]
    refine ⟨hstart.trans (List.prefix_append _ _), ?_, hend⟩
    rw [hnames, Text.pieces_append_mark]
    simp [Text.pieces, leads]
  | case2 => exact ⟨by simp, by decide, .inl rfl⟩
  | case3 r ih =>
    obtain ⟨hstart, hnames, hend⟩ := ih
    rw [List.reverse_cons, List.reverse_cons, List.append_assoc]
    refine ⟨hstart.trans (List.prefix_append _ _), ?_, hend⟩
    rw [hnames, List.singleton_append, Text.pieces_append_mark]
    simp [Text.pieces, leads]
  | case4 x hslash hdot hdots =>
    refine ⟨List.prefix_refl _, rfl, ?_⟩
    obtain ⟨init, last, front, hpieces, -, hspelling, hfront⟩ :=
      Text.exists_pieces_eq_concat '/' x.reverse
    by_cases hx : x = []
    · exact .inl (by simp [hx])
    · refine .inr ⟨init, last, hpieces, ?_⟩
      have hreverse : x = last.reverse ++ front.reverse := by
        simpa using congrArg List.reverse hspelling
      have hempty : last ≠ [] := by
        rintro rfl
        obtain rfl | ⟨body, rfl⟩ := hfront
        · exact hx hreverse
        · exact hslash _ (by simpa using hreverse)
      have hhere : last ≠ ['.'] := by
        rintro rfl
        obtain rfl | ⟨body, rfl⟩ := hfront
        · exact hdot hreverse
        · exact hdots _ (by simpa using hreverse)
      simp [leads, hempty, hhere]

private theorem anchored_spec (s : List Char) :
    (anchored s).1 ++ (anchored s).2 = s ∧ ∀ start, start <+: (anchored s).2 →
      (Text.pieces '/' ((anchored s).1 ++ start)).filter leads = (Text.pieces '/' start).filter leads ∧
        (((anchored s).1 ++ start).head? = some '/' ↔ s.head? = some '/') := by
  fun_cases anchored s with
  | case1 r => exact ⟨rfl, fun start _ => by simp [Text.pieces, leads]⟩
  | case2 =>
    refine ⟨rfl, fun start hstart => ?_⟩
    rw [List.prefix_nil.mp hstart]
    decide
  | case3 r =>
    refine ⟨rfl, fun start hstart => ?_⟩
    cases start with
    | nil => simp [Text.pieces, leads]
    | cons c rest =>
      obtain ⟨rfl, -⟩ := List.cons_prefix_cons.mp hstart
      simp [Text.pieces, leads]
  | case4 s hslash =>
    refine ⟨rfl, fun start hstart => ⟨rfl, ?_⟩⟩
    obtain ⟨rest, rfl⟩ := hstart
    cases start with
    | nil =>
      have hhead : ([] ++ rest).head? ≠ some '/' := fun h =>
        hslash _ (List.head?_eq_some_iff.mp h).choose_spec
      simpa using hhead
    | cons c start => simp

private theorem filter_pieces_trimmed {front name : List Char} {before : List (List Char)}
    (hfront : front = [] ∨ ∃ body, front = body ++ ['/']) (hslash : '/' ∉ name)
    (hpieces : Text.pieces '/' (front ++ name) = before ++ [name]) :
    (Text.pieces '/' (trimmed front)).filter leads = before.filter leads := by
  obtain rfl | ⟨body, rfl⟩ := hfront
  · rw [List.nil_append, Text.pieces_of_not_mem hslash] at hpieces
    obtain rfl : before = [] := by simpa using hpieces.symm
    decide
  · rw [trimmed_slash, (trimmed_spec body).2.1]
    rw [List.append_assoc, List.singleton_append, Text.pieces_append_mark,
      Text.pieces_of_not_mem hslash] at hpieces
    rw [(List.append_inj' hpieces rfl).1]

private theorem parent?_of_trimmed {path : Path} {front last : List Char}
    (htrimmed : trimmed (anchored path.spelling).2 = front ++ last) (hempty : last ≠ [])
    (hslash : '/' ∉ last) (hfront : front = [] ∨ ∃ body, front = body ++ ['/']) :
    path.parent? = some ⟨(anchored path.spelling).1 ++ trimmed front⟩ := by
  have hbody : dropIdle (anchored path.spelling).2.reverse = last.reverse ++ front.reverse := by
    simpa [trimmed] using congrArg List.reverse htrimmed
  have hdrop : (last.reverse ++ front.reverse).dropWhile (· != '/') = front.reverse := by
    rw [List.dropWhile_append_of_pos]
    · obtain rfl | ⟨body, rfl⟩ := hfront <;> simp
    · intro c hc
      have hne : c ≠ '/' := fun heq => hslash (by simpa [heq] using hc)
      simpa using hne
  rw [parent?]
  dsimp only
  split
  · rename_i hnil
    rw [hbody] at hnil
    exact absurd (by simpa using (List.append_eq_nil_iff.mp hnil).1) hempty
  · rename_i c r hcons
    rw [← hcons, hbody, hdrop, trimmed]

private theorem names_eq_trimmed (path : Path) :
    path.names = (Text.pieces '/' (trimmed (anchored path.spelling).2)).filter leads := by
  obtain ⟨hwhole, hanchor⟩ := anchored_spec path.spelling
  rw [(trimmed_spec _).2.1, ← (hanchor _ (List.prefix_refl _)).1, hwhole, names, parts]

/-- A path with names has a parent that goes by the names but the last. -/
private theorem parent?_of_names {path : Path} (h : path.names ≠ []) :
    ∃ front, path.parent? = some ⟨(anchored path.spelling).1 ++ trimmed front⟩ ∧
      trimmed front <+: (anchored path.spelling).2 ∧
        (Text.pieces '/' (trimmed front)).filter leads = path.names.dropLast := by
  obtain ⟨hstart, -, hend⟩ := trimmed_spec (anchored path.spelling).2
  have hpath := names_eq_trimmed path
  obtain hempty | ⟨init, last, hpieces, hleads⟩ := hend
  · rw [hpath, hempty] at h
    exact absurd (by decide) h
  · obtain ⟨before, name, front, hsplit, hslash, htrimmed, hfront⟩ :=
      Text.exists_pieces_eq_concat '/' (trimmed (anchored path.spelling).2)
    obtain rfl : name = last :=
      List.head_eq_of_cons_eq (List.append_inj' (hsplit.symm.trans hpieces) rfl).2
    have hname : name ≠ [] := by
      rintro rfl
      cases hleads
    refine ⟨front, parent?_of_trimmed htrimmed hname hslash hfront, ?_, ?_⟩
    · have hfirst := (trimmed_spec front).1.trans (List.prefix_append front name)
      rw [← htrimmed] at hfirst
      exact hfirst.trans hstart
    · rw [filter_pieces_trimmed hfront hslash (htrimmed ▸ hsplit), hpath, hsplit, List.filter_append,
        List.filter_cons_of_pos hleads, List.filter_nil, List.dropLast_concat]

/-- A path is named by its last name, unless that is `..`. -/
theorem fileName?_of_names {path : Path} {front : Location} {name : Name}
    (h : path.names = front ++ [name]) (hup : name ≠ ['.', '.']) : path.fileName? = some name := by
  obtain ⟨-, -, hend⟩ := trimmed_spec (anchored path.spelling).2
  obtain hempty | ⟨init, last, hpieces, hleads⟩ := hend
  · rw [names_eq_trimmed, hempty] at h
    exact absurd h (by simp [Text.pieces, leads])
  · obtain ⟨before, own, start, hsplit, hslash, htrimmed, hstart⟩ :=
      Text.exists_pieces_eq_concat '/' (trimmed (anchored path.spelling).2)
    obtain rfl : own = last :=
      List.head_eq_of_cons_eq (List.append_inj' (hsplit.symm.trans hpieces) rfl).2
    obtain rfl : own = name := by
      rw [names_eq_trimmed, hpieces, List.filter_append, List.filter_cons_of_pos hleads] at h
      exact List.head_eq_of_cons_eq (List.append_inj' h rfl).2
    have hbody : dropIdle (anchored path.spelling).2.reverse = own.reverse ++ start.reverse := by
      simpa [trimmed] using congrArg List.reverse htrimmed
    have htake : (own.reverse ++ start.reverse).takeWhile (· != '/') = own.reverse := by
      rw [List.takeWhile_append_of_pos]
      · obtain rfl | ⟨body, rfl⟩ := hstart <;> simp
      · intro c hc
        have hne : c ≠ '/' := fun heq => hslash (by simpa [heq] using hc)
        simpa using hne
    rw [fileName?]
    split
    · rename_i hnil
      rw [hbody] at hnil
      obtain rfl : own = [] := by simpa using (List.append_eq_nil_iff.mp hnil).1
      cases hleads
    · rename_i c r hcons
      rw [← hcons, hbody, htake, List.reverse_reverse, if_neg hup]

theorem fileName?_of_parts {path : Path} {front : List (List Char)} {name : Name}
    (h : path.parts = front ++ [name]) (hname : IsEntryName name) : path.fileName? = some name :=
  fileName?_of_names (names_of_parts h hname) hname.2.2.1

/-- What stands behind the last slash of a spelling is its file name, when it can be one. -/
theorem fileName?_of_spelling {path : Path} {front : List Char} {name : Name}
    (h : IsEntryName name) (hspelling : path.spelling = front ++ name)
    (hfront : front = [] ∨ ∃ body, front = body ++ ['/']) : path.fileName? = some name := by
  obtain ⟨before, hparts⟩ := exists_parts_of_spelling h hspelling hfront
  exact fileName?_of_parts hparts h

theorem fileName?_descend_concat (base : Path) (names : Location) {name : Name}
    (h : IsEntryName name) : (base.descend (names ++ [name])).fileName? = some name := by
  rw [descend_append]
  exact fileName?_of_names (names_descend (base.descend names) (by simpa using h)) h.2.2.1

/-- The parent of a path goes by its names but the last, and is spelled as it starts. A path without a
parent has no names. -/
theorem parent?_cases (path : Path) :
    path.parent? = none ∧ path.names = [] ∨
      ∃ parent, path.parent? = some parent ∧ parent.isAbsolute = path.isAbsolute ∧
        parent.names = path.names.dropLast ∧ parent.spelling <+: path.spelling := by
  obtain ⟨hwhole, hanchor⟩ := anchored_spec path.spelling
  have habsolute : ∀ start, start <+: (anchored path.spelling).2 →
      (⟨(anchored path.spelling).1 ++ start⟩ : Path).isAbsolute = path.isAbsolute := by
    intro start hstart
    rw [isAbsolute, isAbsolute, Bool.eq_iff_iff, beq_iff_eq, beq_iff_eq]
    exact (hanchor start hstart).2
  by_cases hnames : path.names = []
  · have htrimmed : dropIdle (anchored path.spelling).2.reverse = [] := by
      obtain hempty | ⟨init, last, hpieces, hleads⟩ := (trimmed_spec (anchored path.spelling).2).2.2
      · exact List.reverse_eq_nil_iff.mp hempty
      · rw [names_eq_trimmed, hpieces] at hnames
        simp [hleads] at hnames
    rw [parent?]
    simp only [htrimmed]
    split
    · rename_i hdot
      have hrelative := habsolute [] List.nil_prefix
      rw [hdot] at hrelative
      exact .inr ⟨⟨[]⟩, rfl, hrelative, by rw [hnames]; decide, List.nil_prefix⟩
    · exact .inl ⟨rfl, hnames⟩
  · obtain ⟨front, hparent, hstart, hfront⟩ := parent?_of_names hnames
    refine .inr ⟨_, hparent, habsolute _ hstart, ?_, ?_⟩
    · rw [← hfront, ← (hanchor _ hstart).1, names, parts]
    · conv => rhs; rw [← hwhole]
      exact (List.prefix_append_right_inj _).mpr hstart

/-- The parent of a straight path that ends in a name goes by the other names. -/
theorem exists_parent_of_straight {path : Path} (h : path.IsStraight) (hend : path.EndsInName) :
    ∃ parent, path.parent? = some parent ∧ parent.IsStraight ∧
      (parent.spelling = ['/'] ∨ parent.EndsInName) ∧ parent.names = path.names.dropLast ∧
        parent.spelling <+: path.spelling := by
  obtain ⟨first, last, hlast⟩ := hend.exists_names
  have hne : path.names ≠ [] := by simp [hlast]
  obtain hnone | ⟨parent, hparent, habsolute, hnames, hstart⟩ := parent?_cases path
  · exact absurd hnone.2 hne
  · have hstraight : parent.IsStraight := by
      refine ⟨habsolute.trans h.absolute, fun hup => h.down ?_⟩
      exact List.dropLast_subset _ (hnames ▸ hup)
    refine ⟨parent, hparent, hstraight, ?_, hnames, hstart⟩
    obtain ⟨front, hfront, -⟩ := parent?_of_names hne
    obtain rfl := Option.some.inj (hparent.symm.trans hfront)
    have hanchor : (anchored path.spelling).1 = ['/'] := by
      have hhead := h.absolute
      rw [isAbsolute, beq_iff_eq] at hhead
      obtain ⟨rest, hrest⟩ := List.head?_eq_some_iff.mp hhead
      rw [hrest, anchored]
    obtain hempty | ⟨init, name, htrimmed, hleads⟩ := (trimmed_spec front).2.2
    · exact .inl (by rw [hempty, hanchor]; rfl)
    · have hparts : (⟨(anchored path.spelling).1 ++ trimmed front⟩ : Path).parts =
          [] :: init ++ [name] := by
        rw [parts, hanchor, List.singleton_append, Text.pieces, if_pos rfl, htrimmed]
        rfl
      refine .inr ⟨[] :: init, name, hparts, hstraight.isEntryName ?_⟩
      rw [names, hparts]
      simp [hleads]

end Path

namespace Disk

theorem foldl_enter_leads (location : Location) {parts : List (List Char)}
    (h : ['.', '.'] ∉ parts.filter Path.leads) :
    parts.foldl enter location = location ++ parts.filter Path.leads := by
  induction parts generalizing location with
  | nil => simp
  | cons part rest ih =>
    cases hpart : Path.leads part with
    | false =>
      rw [List.filter_cons_of_neg (by simp [hpart])] at h ⊢
      rw [List.foldl_cons, enter, if_pos (Path.leads_eq_false_iff.mp hpart), ih location h]
    | true =>
      rw [List.filter_cons_of_pos hpart, List.mem_cons, not_or] at h
      rw [List.filter_cons_of_pos hpart]
      obtain ⟨hup, hrest⟩ := h
      have hname : enter location part = location ++ [part] := by
        simp only [Path.leads, bne_iff_ne, Bool.and_eq_true] at hpart
        simp [enter, hpart, Ne.symm hup]
      rw [List.foldl_cons, hname, ih _ hrest]
      simp

theorem isTooLong_of_start {path other : Path} (hstart : other.spelling <+: path.spelling)
    (h : isTooLong path = false) : isTooLong other = false := by
  obtain ⟨rest, hrest⟩ := hstart
  simp only [isTooLong, decide_eq_false_iff_not, Nat.not_lt] at h ⊢
  have hlength := Text.byteLength_append other.spelling rest
  rw [hrest] at hlength
  omega

/-- A straight path leads to its names, if it leads anywhere. -/
theorem place_of_straight (disk : Disk) {path : Path} (h : path.IsStraight) :
    disk.place path = path.names := by
  rw [place, start, if_pos h.absolute, foldl_enter_leads [] h.down, List.nil_append, Path.names]

end Disk

end BehaviorRegistrar
