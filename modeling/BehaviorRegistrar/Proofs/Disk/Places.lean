import BehaviorRegistrar.Proofs.Disk.Tree
import BehaviorRegistrar.Proofs.Paths

/-!
# The places of paths

The place of a path is read off its spelling and the current directory alone: a name leads into a
directory, `..` leads out of one. A path that leads anywhere on a disk leads to its place, so that
the place stays the same whatever becomes of the disk.
-/

namespace BehaviorRegistrar.Disk

def enter (location : Location) (part : List Char) : Location :=
  if part = [] ∨ part = ['.'] then location
  else if part = ['.', '.'] then location.dropLast
  else location ++ [part]

/-- The location that a path leads to if it leads anywhere. -/
def place (disk : Disk) (path : Path) : Location := path.parts.foldl enter (disk.start path)

def held? (disk : Disk) (path : Path) : Option (Option Contents) :=
  disk.top.held? (disk.place path)

theorem place_congr {first second : Disk} (h : second.here = first.here) (path : Path) :
    second.place path = first.place path := by
  rw [place, place, start, start, h]

def enterComponent (location : Location) : Path.Component → Location
  | .root => []
  | .here => location
  | .up => location.dropLast
  | .name text => location ++ [text]

private theorem foldl_enter_eq_components (location : Location) (parts : List (List Char)) :
    parts.foldl enter location = (parts.filterMap Path.component?).foldl enterComponent location := by
  induction parts generalizing location with
  | nil => rfl
  | cons part rest ih =>
    rw [List.foldl_cons, ih, List.filterMap_cons]
    fun_cases Path.component? part <;> simp_all [enter, enterComponent]

theorem place_eq_components (disk : Disk) (path : Path) :
    disk.place path = path.components.foldl enterComponent disk.here := by
  rw [place, foldl_enter_eq_components, Path.components, start, List.foldl_append]
  split
  · rfl
  · split <;> rfl

/-- Paths with the same components lead to the same place. -/
theorem place_eq_of_same (disk : Disk) {first second : Path} (h : first.same second) :
    disk.place first = disk.place second := by
  have hcomponents : first.components = second.components := by simpa [Path.same] using h
  rw [place_eq_components, place_eq_components, hcomponents]

theorem enter_name (location : Location) {name : Name} (h : IsEntryName name) :
    enter location name = location ++ [name] := by
  simp [enter, h.1, h.2.1, h.2.2.1]

theorem foldl_enter_names (location : Location) {names : Location}
    (h : ∀ name ∈ names, IsEntryName name) : names.foldl enter location = location ++ names := by
  induction names generalizing location with
  | nil => simp
  | cons name names ih =>
    rw [List.foldl_cons, enter_name location (h name List.mem_cons_self),
      ih _ fun other hother => h other (List.mem_cons_of_mem name hother)]
    simp

theorem follow_eq_enter {disk : Disk} {location reached : Location} {part : List Char}
    (h : disk.follow location part = .ok reached) : reached = enter location part := by
  fun_cases follow disk location part <;> simp_all [enter, follow]

theorem followAll_eq_foldl {disk : Disk} {location reached : Location} {parts : List (List Char)}
    (h : disk.followAll location parts = .ok reached) : reached = parts.foldl enter location := by
  induction parts generalizing location with
  | nil => exact (Except.ok.inj h).symm
  | cons part parts ih =>
    rw [followAll, List.foldlM_cons] at h
    cases hfollow : disk.follow location part with
    | error fault =>
      rw [hfollow] at h
      cases h
    | ok next =>
      rw [hfollow] at h
      rw [List.foldl_cons, ← follow_eq_enter hfollow]
      exact ih h

theorem locate_eq_place {disk : Disk} {path : Path} {location : Location}
    (h : disk.locate path = .ok location) : location = disk.place path := by
  rw [locate] at h
  split at h
  · cases h
  · exact followAll_eq_foldl h

theorem at?_place_of_node {disk : Disk} {path : Path} {node : Node}
    (h : disk.node path = .ok node) : disk.top.at? (disk.place path) = some node := by
  fun_cases Disk.node disk path <;> simp_all [Disk.node, ← locate_eq_place]

theorem node_of_read {disk : Disk} {path : Path} {contents : Contents}
    (h : disk.read path = .ok contents) : disk.node path = .ok (.file contents) := by
  fun_cases Disk.read disk path <;> simp_all [Disk.read]

theorem held?_of_read {disk : Disk} {path : Path} {contents : Contents}
    (h : disk.read path = .ok contents) : disk.held? path = some (some contents) := by
  rw [held?, Node.held?_eq_file]
  exact at?_place_of_node (node_of_read h)

private theorem held?_dropLast {node : Node} {location : Location}
    (h : node.held? location = some none) : node.held? location.dropLast = some none := by
  by_cases heq : location = location.dropLast
  · rwa [← heq]
  · by_cases hdrop : node.held? location.dropLast = some none
    · exact hdrop
    · exact absurd location.dropLast_prefix (Node.not_prefix_of_held? hdrop (by simp [h]) heq)

private theorem isDirectory_of_follow {disk : Disk} {location reached : Location}
    {part : List Char} (h : disk.follow location part = .ok reached)
    (hpart : part = [] ∨ part = ['.'] ∨ part = ['.', '.']) : disk.top.held? reached = some none := by
  cases hentries : disk.entriesAt location with
  | error fault => simp [follow, hentries] at h
  | ok entries =>
    have hlocation : disk.top.held? location = some none := by
      refine Node.held?_eq_directory.mpr ⟨entries, ?_⟩
      fun_cases entriesAt disk location <;> simp_all [entriesAt]
    rw [follow_eq_enter h]
    rcases hpart with rfl | rfl | rfl
    · simpa [enter] using hlocation
    · simpa [enter] using hlocation
    · simpa [enter] using held?_dropLast hlocation

/-- A path that leads to a file ends in the name of that file. -/
theorem exists_name_of_file {disk : Disk} {path : Path} {contents : Contents}
    (h : disk.node path = .ok (.file contents)) :
    ∃ front name location, path.spelling = front ++ name ∧
      (front = [] ∨ ∃ body, front = body ++ ['/']) ∧ IsEntryName name ∧
        disk.place path = location ++ [name] := by
  have hfile : disk.held? path = some (some contents) :=
    Node.held?_eq_file.mpr (at?_place_of_node h)
  obtain ⟨location, hlocation⟩ : ∃ location, disk.locate path = .ok location := by
    fun_cases Disk.node disk path <;> simp_all [Disk.node]
  have hplace := locate_eq_place hlocation
  obtain ⟨init, last, front, hparts, hslash, hspelling, hfront⟩ :=
    Text.exists_pieces_eq_concat '/' path.spelling
  have hlast : ∃ before, disk.follow before last = .ok location := by
    rw [locate] at hlocation
    split at hlocation
    · cases hlocation
    · rw [followAll, Path.parts, hparts, List.foldlM_append] at hlocation
      cases hinit : init.foldlM disk.follow (disk.start path) with
      | error fault =>
        rw [hinit] at hlocation
        cases hlocation
      | ok before =>
        rw [hinit] at hlocation
        have hone : (disk.follow before last >>= pure) = .ok location := hlocation
        exact ⟨before, by simpa using hone⟩
  obtain ⟨before, hfollow⟩ := hlast
  have hname : IsEntryName last := by
    rw [IsEntryName]
    have hnot : ¬ (last = [] ∨ last = ['.'] ∨ last = ['.', '.']) := by
      intro hpart
      have hdirectory := isDirectory_of_follow hfollow hpart
      rw [hplace, ← held?, hfile] at hdirectory
      cases hdirectory
    simp only [not_or] at hnot
    exact ⟨hnot.1, hnot.2.1, hnot.2.2, hslash⟩
  refine ⟨front, last, before, hspelling, hfront, hname, ?_⟩
  rw [← hplace, follow_eq_enter hfollow, enter_name before hname]

/-- A path taken from another one leads on from its place. -/
theorem place_join (disk : Disk) (base : Path) {path : Path} (h : path.isAbsolute = false) :
    disk.place (base.join path) = path.parts.foldl enter (disk.place base) := by
  obtain ⟨front, hjoin, hbase⟩ := Path.exists_parts_join base h
  have hfront : base.parts.foldl enter (disk.start base) = front.foldl enter (disk.start base) := by
    obtain hbase | ⟨hbase, -⟩ := hbase <;> simp [hbase, enter]
  rw [place, place, hfront, hjoin, List.foldl_append, start, start, Path.isAbsolute_join base h]

theorem place_join_name (disk : Disk) (base : Path) {name : Name} (h : IsEntryName name) :
    disk.place (base.join ⟨name⟩) = disk.place base ++ [name] := by
  rw [place_join disk base (Path.isAbsolute_name h), Path.parts_name h]
  exact enter_name (disk.place base) h

theorem place_descend (disk : Disk) (base : Path) {names : Location}
    (h : ∀ name ∈ names, IsEntryName name) :
    disk.place (base.descend names) = disk.place base ++ names := by
  induction names generalizing base with
  | nil => simp
  | cons name names ih =>
    rw [Path.descend_cons, ih _ fun other hother => h other (List.mem_cons_of_mem name hother),
      place_join_name disk base (h name List.mem_cons_self)]
    simp

theorem place_join_spell (disk : Disk) (base : Path) {names : Location}
    (h : ∀ name ∈ names, IsEntryName name) :
    disk.place (base.join ⟨Path.spell (names.map .name)⟩) = disk.place base ++ names := by
  rw [place_join disk base (Path.isAbsolute_spell h)]
  by_cases hne : names = []
  · subst hne
    simp [Path.spell, Path.parts, Text.pieces, enter]
  · rw [Path.parts_spell hne h, foldl_enter_names _ h]

end BehaviorRegistrar.Disk
