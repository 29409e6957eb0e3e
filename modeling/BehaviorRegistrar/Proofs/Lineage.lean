import BehaviorRegistrar.Proofs.Disk.Following
import BehaviorRegistrar.Proofs.Straight

/-!
# The paths above a path

A path, its parent, the parent of that, and so on, go by ever fewer of the names of the path, so what
leads to the path leads through the places of all of them, which are directories then.
-/

namespace BehaviorRegistrar

/-- A path, its parent, the parent of that, and so on. -/
def Path.ancestors (path : Path) : List Path :=
  path ::
    match _h : path.parent? with
    | none => []
    | some parent => parent.ancestors
termination_by path.spelling.length
decreasing_by exact Path.length_lt_of_parent? _h

namespace Path

variable {path parent : Path}

theorem mem_ancestors_self (path : Path) : path ∈ path.ancestors := by
  rw [ancestors]
  exact List.mem_cons_self

theorem ancestors_of_parent? (h : path.parent? = some parent) :
    path.ancestors = path :: parent.ancestors := by
  rw [ancestors]
  split
  · rename_i hnone
    rw [h] at hnone
    cases hnone
  · rename_i other hother
    rw [Option.some.inj (h.symm.trans hother)]

end Path

namespace Disk

variable {disk : Disk} {path parent : Path}

theorem foldl_enter_filter (location : Location) (parts : List (List Char)) :
    (parts.filter Path.leads).foldl enter location = parts.foldl enter location := by
  induction parts generalizing location with
  | nil => rfl
  | cons part rest ih =>
    cases hpart : Path.leads part with
    | false =>
      rw [List.filter_cons_of_neg (by simp [hpart]), ih, List.foldl_cons, enter,
        if_pos (Path.leads_eq_false_iff.mp hpart)]
    | true => rw [List.filter_cons_of_pos hpart, List.foldl_cons, List.foldl_cons, ih]

/-- The parts of a path that lead nowhere else do not matter for its place. -/
theorem place_eq_names (disk : Disk) (path : Path) :
    disk.place path = path.names.foldl enter (disk.start path) := by
  rw [Path.names, foldl_enter_filter, place]

theorem followAll_names_of_parts {location reached : Location} {parts : List (List Char)}
    (h : disk.followAll location parts = .ok reached) :
    disk.followAll location (parts.filter Path.leads) = .ok reached := by
  induction parts generalizing location with
  | nil => exact h
  | cons part rest ih =>
    obtain ⟨next, hfollow, hrest⟩ := followAll_cons_eq_ok_iff.mp h
    cases hpart : Path.leads part with
    | false =>
      obtain ⟨-, hnext, -⟩ := follow_eq_ok_iff.mp hfollow
      rw [enter, if_pos (Path.leads_eq_false_iff.mp hpart)] at hnext
      rw [List.filter_cons_of_neg (by simp [hpart]), ← hnext]
      exact ih hrest
    | true =>
      rw [List.filter_cons_of_pos hpart]
      exact followAll_cons_eq_ok_iff.mpr ⟨next, hfollow, ih hrest⟩

theorem start_of_parent? (disk : Disk) (h : path.parent? = some parent) :
    disk.start parent = disk.start path := by
  obtain ⟨hnone, -⟩ | ⟨other, hother, habsolute, -⟩ := path.parent?_cases
  · rw [h] at hnone
    cases hnone
  · rw [start, start, Option.some.inj (h.symm.trans hother), habsolute]

/-- A name is looked for in a directory, the place of the parent. -/
theorem followAll_parent {reached : Location} (h : path.parent? = some parent)
    (hne : path.names ≠ []) (hfollow : disk.followAll (disk.start path) path.names = .ok reached) :
    disk.followAll (disk.start parent) parent.names = .ok (disk.place parent) ∧
      disk.view (disk.place parent) = some none := by
  obtain ⟨hnone, -⟩ | ⟨other, hother, -, hnames, -⟩ := path.parent?_cases
  · rw [h] at hnone
    cases hnone
  · obtain rfl := Option.some.inj (h.symm.trans hother)
    rw [← List.dropLast_concat_getLast hne, ← hnames, ← start_of_parent? disk h, followAll_append]
      at hfollow
    cases hfront : disk.followAll (disk.start parent) parent.names with
    | error fault =>
      rw [hfront] at hfollow
      cases hfollow
    | ok location =>
      rw [hfront] at hfollow
      obtain ⟨next, hlast, -⟩ := followAll_cons_eq_ok_iff.mp hfollow
      have hplace : location = disk.place parent := by
        rw [place_eq_names, followAll_eq_foldl hfront]
      rw [← hplace]
      exact ⟨rfl, (follow_eq_ok_iff.mp hlast).1⟩

/-- Directories stand at the places of all paths above a directory that a path leads to. -/
theorem view_of_mem_ancestors {path above : Path} (habove : above ∈ path.ancestors)
    (hfollow : disk.followAll (disk.start path) path.names = .ok (disk.place path))
    (hdirectory : disk.view (disk.place path) = some none) :
    disk.view (disk.place above) = some none := by
  rw [Path.ancestors] at habove
  obtain rfl | habove := List.mem_cons.mp habove
  · exact hdirectory
  · split at habove
    · cases habove
    · rename_i parent hparent
      by_cases hne : path.names = []
      · obtain ⟨hnone, -⟩ | ⟨other, hother, -, hnames, -⟩ := path.parent?_cases
        · rw [hparent] at hnone
          cases hnone
        · obtain rfl := Option.some.inj (hparent.symm.trans hother)
          have hempty : parent.names = path.names := by rw [hnames, hne]; rfl
          have hplace : disk.place parent = disk.place path := by
            rw [place_eq_names, place_eq_names, hempty, start_of_parent? disk hparent]
          refine view_of_mem_ancestors habove ?_ (by rw [hplace, hdirectory])
          rw [hempty, start_of_parent? disk hparent, hplace, hfollow]
      · obtain ⟨hfront, hview⟩ := followAll_parent hparent hne hfollow
        exact view_of_mem_ancestors habove hfront hview
termination_by path.spelling.length
decreasing_by all_goals exact Path.length_lt_of_parent? (by assumption)

end Disk

end BehaviorRegistrar
