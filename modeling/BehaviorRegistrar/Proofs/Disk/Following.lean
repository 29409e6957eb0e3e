import BehaviorRegistrar.Proofs.Disk.Places

/-!
# What following a path looks at

Following a path looks only at what stands at the locations on the way. So two disks on which the same
stands there lead the path to the same location, and a path that leads somewhere still does when
directories have been added. Reading a file looks in addition at the file alone.
-/

namespace BehaviorRegistrar

/-- What stands at each location: a file with its bytes, a directory without, or nothing. -/
abbrev View := Location → Option (Option Contents)

namespace View

def enter (view : View) (location : Location) : Except DiskFault Unit :=
  match view location with
  | none => .error .notFound
  | some (some _) => .error .notADirectory
  | some none => .ok ()

def follow (view : View) (location : Location) (part : List Char) : Except DiskFault Location :=
  match view.enter location with
  | .error fault => .error fault
  | .ok () =>
    if part = [] ∨ part = ['.'] then .ok location
    else if part = ['.', '.'] then .ok location.dropLast
    else if Disk.nameLimit < Text.byteLength part then .error .nameTooLong
    else if (view (location ++ [part])).isSome then .ok (location ++ [part])
    else .error .notFound

theorem enter_eq_ok_iff {view : View} {location : Location} :
    view.enter location = .ok () ↔ view location = some none := by
  fun_cases enter view location <;> simp_all

theorem follow_eq_ok_iff {view : View} {location reached : Location} {part : List Char} :
    view.follow location part = .ok reached ↔
      view location = some none ∧ reached = Disk.enter location part ∧
        (part ≠ [] → part ≠ ['.'] → part ≠ ['.', '.'] →
          Text.byteLength part ≤ Disk.nameLimit ∧ view reached ≠ none) := by
  rw [follow, ← enter_eq_ok_iff, Disk.enter]
  cases view.enter location with
  | error fault => simp
  | ok _ =>
    by_cases hidle : part = [] ∨ part = ['.']
    · grind
    · by_cases hup : part = ['.', '.']
      · grind
      · by_cases hlong : Disk.nameLimit < Text.byteLength part
        · grind
        · cases hnext : view (location ++ [part]) <;> grind

end View

namespace Disk

variable {disk other : Disk} {path : Path} {location reached : Location} {parts : List (List Char)}

def view (disk : Disk) : View := fun location => disk.top.held? location

theorem held?_eq_view (disk : Disk) (path : Path) : disk.held? path = disk.view (disk.place path) :=
  rfl

/-- Only directories are on the way to what stands at a location. -/
theorem view_above {first second : Location} (h : disk.view second ≠ none)
    (hstart : first <+: second) (hne : first ≠ second) : disk.view first = some none := by
  by_cases hfirst : disk.view first = some none
  · exact hfirst
  · exact absurd hstart (Node.not_prefix_of_held? hfirst h hne.symm)

/-- Nothing stands behind what is no directory. -/
theorem view_behind {first second : Location} (h : disk.view first ≠ some none)
    (hstart : first <+: second) (hne : first ≠ second) : disk.view second = none := by
  by_cases hsecond : disk.view second = none
  · exact hsecond
  · exact absurd (view_above hsecond hstart hne) h

theorem view_dropLast (h : disk.view location = some none) :
    disk.view location.dropLast = some none := by
  by_cases htop : location.dropLast = location
  · rw [htop, h]
  · exact view_above (show disk.view location ≠ none by simp [h]) location.dropLast_prefix htop

theorem entriesAt_of_view (h : disk.view location = some none) :
    ∃ entries, disk.entriesAt location = .ok entries ∧
      disk.top.at? location = some (.directory entries) := by
  obtain ⟨entries, hentries⟩ := Node.held?_eq_directory.mp h
  exact ⟨entries, by rw [entriesAt, hentries], hentries⟩

theorem enter_view (disk : Disk) (location : Location) :
    disk.view.enter location = (disk.entriesAt location).map fun _ => () := by
  rw [View.enter, view, Node.held?, entriesAt]
  cases disk.top.at? location with
  | none => rfl
  | some node => cases node <;> rfl

theorem follow_eq_view (disk : Disk) (location : Location) (part : List Char) :
    disk.follow location part = disk.view.follow location part := by
  rw [follow, View.follow, enter_view]
  cases hentries : disk.entriesAt location with
  | error fault => rfl
  | ok entries =>
    have hfound : (disk.view (location ++ [part])).isSome = (entries.find? part).isSome := by
      have hat : disk.top.at? location = some (.directory entries) := by
        fun_cases entriesAt disk location <;> simp_all [entriesAt]
      rw [view, Node.held?, Node.at?_append, hat, Option.isSome_map]
      cases hfind : entries.find? part <;> simp [Node.at?, hfind]
    simp only [Except.map, hfound]

theorem follow_eq_ok_iff {part : List Char} :
    disk.follow location part = .ok reached ↔
      disk.view location = some none ∧ reached = enter location part ∧
        (part ≠ [] → part ≠ ['.'] → part ≠ ['.', '.'] →
          Text.byteLength part ≤ nameLimit ∧ disk.view reached ≠ none) := by
  rw [follow_eq_view, View.follow_eq_ok_iff]

theorem followAll_cons (part : List Char) (rest : List (List Char)) :
    disk.followAll location (part :: rest) =
      (disk.follow location part).bind fun next => disk.followAll next rest :=
  rfl

theorem followAll_append (disk : Disk) (location : Location) (first rest : List (List Char)) :
    disk.followAll location (first ++ rest) =
      (disk.followAll location first).bind fun next => disk.followAll next rest :=
  List.foldlM_append

theorem followAll_cons_eq_ok_iff {part : List Char} {rest : List (List Char)} :
    disk.followAll location (part :: rest) = .ok reached ↔
      ∃ next, disk.follow location part = .ok next ∧ disk.followAll next rest = .ok reached := by
  rw [followAll_cons]
  cases disk.follow location part <;> simp [Except.bind]

theorem followAll_append_eq_ok_iff {first rest : List (List Char)} :
    disk.followAll location (first ++ rest) = .ok reached ↔
      ∃ middle, disk.followAll location first = .ok middle ∧
        disk.followAll middle rest = .ok reached := by
  rw [followAll_append]
  cases disk.followAll location first <;> simp [Except.bind]

/-- What a path leads to is still there when directories stay and what stands at its end. -/
theorem followAll_of_grows (h : disk.followAll location parts = .ok reached)
    (hgrows : ∀ place, disk.view place = some none → other.view place = some none)
    (hreached : other.view reached ≠ none) : other.followAll location parts = .ok reached := by
  induction parts generalizing location with
  | nil => exact h
  | cons part rest ih =>
    obtain ⟨next, hfollow, hrest⟩ := followAll_cons_eq_ok_iff.mp h
    have hnext : other.view next ≠ none := by
      cases rest with
      | nil =>
        obtain rfl := Except.ok.inj hrest
        exact hreached
      | cons second others =>
        obtain ⟨third, hsecond, -⟩ := followAll_cons_eq_ok_iff.mp hrest
        simp [hgrows next (follow_eq_ok_iff.mp hsecond).1]
    obtain ⟨hdirectory, henter, hname⟩ := follow_eq_ok_iff.mp hfollow
    refine followAll_cons_eq_ok_iff.mpr ⟨next, follow_eq_ok_iff.mpr ?_, ih hrest⟩
    exact ⟨hgrows location hdirectory, henter, fun h₁ h₂ h₃ => ⟨(hname h₁ h₂ h₃).1, hnext⟩⟩

/-- The names on a path that leads somewhere are short enough. -/
theorem byteLength_le_of_followAll (h : disk.followAll location parts = .ok reached) {name : Name}
    (hmem : name ∈ parts) (hname : IsEntryName name) : Text.byteLength name ≤ nameLimit := by
  induction parts generalizing location with
  | nil => cases hmem
  | cons part rest ih =>
    obtain ⟨next, hfollow, hrest⟩ := followAll_cons_eq_ok_iff.mp h
    obtain rfl | hmem := List.mem_cons.mp hmem
    · exact ((follow_eq_ok_iff.mp hfollow).2.2 hname.1 hname.2.1 hname.2.2.1).1
    · exact ih hrest hmem

/-- Names that are short enough lead to what stands behind them. -/
theorem followAll_names {names : Location} (hnames : ∀ name ∈ names, IsEntryName name)
    (hshort : ∀ name ∈ names, Text.byteLength name ≤ nameLimit)
    (hview : disk.view (location ++ names) ≠ none) :
    disk.followAll location names = .ok (location ++ names) := by
  induction names generalizing location with
  | nil => rw [List.append_nil]; rfl
  | cons name rest ih =>
    have hname := hnames name List.mem_cons_self
    have hsplit : location ++ name :: rest = location ++ [name] ++ rest := by simp
    rw [hsplit] at hview ⊢
    refine followAll_cons_eq_ok_iff.mpr ⟨location ++ [name], follow_eq_ok_iff.mpr ?_, ?_⟩
    · refine ⟨view_above hview ?_ ?_, (enter_name location hname).symm, fun _ _ _ => ?_⟩
      · exact (List.prefix_append location [name]).trans (List.prefix_append _ rest)
      · intro h
        simpa using congrArg List.length h
      · refine ⟨hshort name List.mem_cons_self, ?_⟩
        by_cases hrest : rest = []
        · simpa [hrest] using hview
        · simp [view_above hview (List.prefix_append _ rest) (by simp [hrest])]
    · exact ih (fun other h => hnames other (List.mem_cons_of_mem name h))
        (fun other h => hshort other (List.mem_cons_of_mem name h)) hview

theorem view_of_follow {part : List Char} (h : disk.follow location part = .ok reached) :
    disk.view reached ≠ none := by
  obtain ⟨hdirectory, rfl, hname⟩ := follow_eq_ok_iff.mp h
  rw [enter] at hname ⊢
  split
  · simp [hdirectory]
  · rename_i hidle
    split
    · simp [view_dropLast hdirectory]
    · rename_i hup
      obtain ⟨hempty, hhere⟩ := not_or.mp hidle
      rw [if_neg hidle, if_neg hup] at hname
      exact (hname hempty hhere hup).2

theorem view_of_followAll (hne : parts ≠ [])
    (h : disk.followAll location parts = .ok reached) : disk.view reached ≠ none := by
  induction parts generalizing location with
  | nil => exact absurd rfl hne
  | cons part rest ih =>
    obtain ⟨next, hfollow, hrest⟩ := followAll_cons_eq_ok_iff.mp h
    by_cases hlast : rest = []
    · subst hlast
      obtain rfl := Except.ok.inj hrest
      exact view_of_follow hfollow
    · exact ih hlast hrest

/-- Something stands where a path leads. -/
theorem view_of_locate (h : disk.locate path = .ok location) : disk.view location ≠ none := by
  rw [locate] at h
  split at h
  · cases h
  · exact view_of_followAll (Text.pieces_ne_nil '/' path.spelling) h

theorem followAll_of_node {node : Node} (h : disk.node path = .ok node) :
    disk.followAll (disk.start path) path.parts = .ok (disk.place path) := by
  rw [Disk.node] at h
  split at h
  · cases h
  · cases hlocate : disk.locate path with
    | error fault =>
      rw [hlocate] at h
      cases h
    | ok location =>
      have hplace := locate_eq_place hlocate
      rw [locate] at hlocate
      split at hlocate
      · cases hlocate
      · rwa [hplace] at hlocate

theorem followAll_of_concat_nil {front : List (List Char)}
    (h : disk.followAll location (front ++ [[]]) = .ok reached) :
    disk.followAll location front = .ok reached := by
  obtain ⟨middle, hfront, hlast⟩ := followAll_append_eq_ok_iff.mp h
  obtain ⟨next, hfollow, hnext⟩ := followAll_cons_eq_ok_iff.mp hlast
  obtain rfl := Except.ok.inj hnext
  obtain ⟨-, hsame, -⟩ := follow_eq_ok_iff.mp hfollow
  rw [hsame]
  simpa [enter] using hfront

/-- Names that are short enough lead on from where a path leads. -/
theorem followAll_descend {names : Location} (hnames : ∀ name ∈ names, IsEntryName name)
    (hshort : ∀ name ∈ names, Text.byteLength name ≤ nameLimit)
    (hpath : disk.followAll (disk.start path) path.parts = .ok (disk.place path))
    (hview : disk.view (disk.place path ++ names) ≠ none) :
    disk.followAll (disk.start path) (path.descend names).parts =
      .ok (disk.place path ++ names) := by
  by_cases hne : names = []
  · simpa [hne] using hpath
  · obtain ⟨front, hdescend, hfront⟩ := Path.exists_parts_descend path hne hnames
    have hreached : disk.followAll (disk.start path) front = .ok (disk.place path) := by
      obtain hbase | hbase := hfront
      · exact followAll_of_concat_nil (hbase ▸ hpath)
      · rwa [← hbase]
    rw [hdescend, followAll_append, hreached]
    exact followAll_names hnames hshort hview

theorem read_eq_view (disk : Disk) (path : Path) :
    disk.read path =
      if isTooLong path then .error .nameTooLong
      else
        match disk.locate path with
        | .error fault => .error fault
        | .ok location =>
          match disk.view location with
          | none => .error .notFound
          | some none => .error .isADirectory
          | some (some contents) => .ok contents := by
  rw [read, node]
  cases isTooLong path with
  | true => rfl
  | false =>
    cases disk.locate path with
    | error fault => rfl
    | ok location =>
      simp only [Bool.false_eq_true, ↓reduceIte, view, Node.held?]
      cases disk.top.at? location with
      | none => rfl
      | some node => cases node <;> rfl

theorem read_eq_ok_iff {contents : Contents} :
    disk.read path = .ok contents ↔
      isTooLong path = false ∧ path.spelling ≠ [] ∧
        disk.followAll (disk.start path) path.parts = .ok (disk.place path) ∧
          disk.held? path = some (some contents) := by
  rw [read_eq_view, held?_eq_view]
  cases isTooLong path with
  | true => simp
  | false =>
    cases hlocate : disk.locate path with
    | error fault =>
      rw [locate] at hlocate
      split at hlocate <;> simp_all
    | ok location =>
      have hplace := locate_eq_place hlocate
      rw [locate] at hlocate
      split at hlocate
      · cases hlocate
      · subst hplace
        cases hview : disk.view (disk.place path) with
        | none => simp_all
        | some what => cases what <;> simp_all

end Disk

end BehaviorRegistrar
