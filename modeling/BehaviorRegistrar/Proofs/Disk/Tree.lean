import BehaviorRegistrar.FileTree.Disk

/-!
# Files in changed trees

A directory that is changed at one name leaves everything alone that does not lie behind that name.
What stands in a tree is reached through directories only, so nothing lies behind a file.
-/

namespace BehaviorRegistrar

namespace Entries

theorem find?_set (name other : Name) (node : Node) (entries : Entries) :
    (entries.set name node).find? other = if name = other then some node else entries.find? other := by
  fun_induction set name node entries with
  | case1 => simp [find?]
  | case2 old rest =>
    simp only [find?]
    split <;> simp_all
  | case3 first old rest _ _ => simp only [find?]
  | case4 first old rest hne _ ih =>
    simp only [find?, ih]
    by_cases hfirst : first = other
    · have hname : name ≠ other := fun h => hne (hfirst.trans h.symm)
      simp [hfirst, hname]
    · simp [hfirst]

theorem find?_erase_of_ne {name other : Name} (hne : name ≠ other) (entries : Entries) :
    (entries.erase name).find? other = entries.find? other := by
  fun_induction erase name entries with
  | case1 => rfl
  | case2 node rest => simp [find?, hne]
  | case3 first node rest _ ih => simp only [find?, ih]

theorem find?_adjust_self (name : Name) (change : Node → Node) (entries : Entries) :
    (entries.adjust name change).find? name = (entries.find? name).map change := by
  fun_induction adjust name change entries with
  | case1 => rfl
  | case2 node rest => simp [find?]
  | case3 first node rest hne ih => simp only [find?, hne, ↓reduceIte, ih]

theorem find?_adjust_of_ne {name other : Name} (hne : name ≠ other) (change : Node → Node)
    (entries : Entries) : (entries.adjust name change).find? other = entries.find? other := by
  fun_induction adjust name change entries with
  | case1 => rfl
  | case2 node rest => simp [find?, hne]
  | case3 first node rest _ ih => simp only [find?, ih]

theorem adjust_set (name : Name) (node : Node) (change : Node → Node) (entries : Entries) :
    (entries.set name node).adjust name change = entries.set name (change node) := by
  fun_induction set name node entries with
  | case1 => simp [adjust, set]
  | case2 old rest => simp [adjust, set]
  | case3 first old rest hne hlt => simp [adjust, set, hne, hlt]
  | case4 first old rest hne hlt ih => simp [adjust, set, hne, hlt, ih]

theorem adjust_adjust (name : Name) (first second : Node → Node) (entries : Entries) :
    (entries.adjust name first).adjust name second = entries.adjust name (second ∘ first) := by
  fun_induction adjust name first entries with
  | case1 => rfl
  | case2 node rest => simp [adjust]
  | case3 other node rest hne ih => simp [adjust, hne, ih]

end Entries

namespace Node

theorem extend_update (name : Name) (contents bytes : Contents) (location : Location) (node : Node) :
    (node.update (Entries.set name (.file contents)) location).extend bytes (location ++ [name]) =
      node.update (Entries.set name (.file (contents ++ bytes))) location := by
  induction location generalizing node with
  | nil =>
    cases node with
    | file old => rfl
    | directory entries => simp [update, extend, Entries.adjust_set]
  | cons first rest ih =>
    cases node with
    | file old => rfl
    | directory entries =>
      rw [update, List.cons_append, extend, Entries.adjust_adjust, update]
      congr 2
      exact funext ih

def contents? : Node → Option Contents
  | .file contents => some contents
  | .directory _ => none

/-- What stands at a location: a file with its bytes, a directory without, or nothing. -/
def held? (location : Location) (node : Node) : Option (Option Contents) :=
  (node.at? location).map contents?

theorem at?_append (first rest : Location) (node : Node) :
    node.at? (first ++ rest) = (node.at? first).bind (at? rest) := by
  induction first generalizing node with
  | nil => cases rest <;> simp [at?]
  | cons name names ih =>
    cases node with
    | file contents => simp [at?]
    | directory entries =>
      simp only [List.cons_append, at?]
      cases entries.find? name <;> simp [ih]

theorem held?_eq_file {location : Location} {node : Node} {contents : Contents} :
    node.held? location = some (some contents) ↔ node.at? location = some (.file contents) := by
  rw [held?]
  cases node.at? location with
  | none => simp
  | some found => cases found <;> simp [contents?]

theorem held?_eq_directory {location : Location} {node : Node} :
    node.held? location = some none ↔ ∃ entries, node.at? location = some (.directory entries) := by
  rw [held?]
  cases node.at? location with
  | none => simp
  | some found => cases found <;> simp [contents?]

/-- Only directories are on the way to what stands at a location. -/
theorem not_prefix_of_held? {node : Node} {location place : Location}
    (hlocation : node.held? location ≠ some none) (hplace : node.held? place ≠ none)
    (hne : place ≠ location) : ¬ location <+: place := by
  rintro ⟨rest, rfl⟩
  cases rest with
  | nil => exact hne (List.append_nil location)
  | cons name names =>
    cases hat : node.at? location with
    | none => exact hplace (by simp [held?, at?_append, hat])
    | some found =>
      cases found with
      | file contents => exact hplace (by simp [held?, at?_append, hat, at?])
      | directory entries => exact hlocation (held?_eq_directory.mpr ⟨entries, hat⟩)

theorem at?_update {location : Location} {node : Node} {entries : Entries}
    (h : node.at? location = some (.directory entries)) (change : Entries → Entries) :
    (node.update change location).at? location = some (.directory (change entries)) := by
  induction location generalizing node with
  | nil =>
    obtain rfl : node = .directory entries := by simpa [at?] using h
    simp [update, at?]
  | cons name names ih =>
    cases node with
    | file contents => simp [at?] at h
    | directory outer =>
      obtain ⟨inner, hfind, hinner⟩ := Option.bind_eq_some_iff.mp h
      simp only [update, at?, Entries.find?_adjust_self, hfind, Option.map_some, Option.bind_some]
      exact ih hinner

/-- A change at one name of a directory is not seen outside of what lies behind that name. -/
theorem held?_update {change : Entries → Entries} {name : Name}
    (hchange : ∀ other, name ≠ other → ∀ entries, (change entries).find? other = entries.find? other)
    {location place : Location} (hplace : ¬ location ++ [name] <+: place) (node : Node) :
    (node.update change location).held? place = node.held? place := by
  induction location generalizing node place with
  | nil =>
    cases node with
    | file contents => rfl
    | directory entries =>
      cases place with
      | nil => rfl
      | cons other rest =>
        have hne : name ≠ other := by
          rintro rfl
          exact hplace (by simp)
        simp [update, held?, at?, hchange other hne]
  | cons outer names ih =>
    cases node with
    | file contents => rfl
    | directory entries =>
      cases place with
      | nil => rfl
      | cons other rest =>
        by_cases hother : outer = other
        · subst hother
          have hrest : ¬ names ++ [name] <+: rest := by
            intro h
            exact hplace (by simpa using h)
          cases hfind : entries.find? outer with
          | none => simp [update, held?, at?, Entries.find?_adjust_self, hfind]
          | some inner =>
            simpa [update, held?, at?, Entries.find?_adjust_self, hfind] using ih hrest inner
        · simp [update, held?, at?, Entries.find?_adjust_of_ne hother]

end Node

end BehaviorRegistrar
