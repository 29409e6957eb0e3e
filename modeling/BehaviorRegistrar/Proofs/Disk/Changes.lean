import BehaviorRegistrar.Proofs.Disk.Following
import BehaviorRegistrar.Proofs.Disk.Operations
import BehaviorRegistrar.Proofs.Disk.Ordering

/-!
# What the operations of a disk change

An operation that succeeds changes what stands at the place of its path, a move also what stands at
the place it moves to, and nothing else. An ordered disk is known from what it shows.
-/

namespace BehaviorRegistrar

def View.set (view : View) (location : Location) (what : Option (Option Contents)) : View :=
  fun other => if other = location then what else view other

namespace Disk

/-- Whether a disk is ordered and shows a view from a current directory. -/
structure Shows (disk : Disk) (here : Location) (view : View) : Prop where
  here : disk.here = here
  ordered : disk.top.Ordered
  view : disk.view = view

theorem Shows.eq {first second : Disk} {here : Location} {view : View}
    (hfirst : first.Shows here view) (hsecond : second.Shows here view) : first = second := by
  have htop : first.top = second.top := by
    refine Node.eq_of_held? hfirst.ordered hsecond.ordered fun location => ?_
    exact congrFun (hfirst.view.trans hsecond.view.symm) location
  have hhere : first.here = second.here := hfirst.here.trans hsecond.here.symm
  obtain ⟨top, here⟩ := first
  obtain ⟨other, there⟩ := second
  exact congr (congrArg Disk.mk htop) hhere

variable {disk after : Disk} {path source target : Path} {slot : Slot} {contents : Contents}

theorem view_directory_of_slot (h : disk.slot path = .ok slot) :
    disk.view slot.directory = some none :=
  Node.held?_eq_directory.mpr ⟨_, at?_directory_of_slot h⟩

theorem view_location_of_slot (h : disk.slot path = .ok slot) :
    disk.view slot.location = slot.present?.map Node.contents? := by
  rw [view, Node.held?, at?_location_of_slot h]

theorem view_location_ne_of_slot (h : disk.slot path = .ok slot)
    (hpresent : ∀ entries, slot.present? ≠ some (.directory entries)) :
    disk.view slot.location ≠ some none := by
  rw [view_location_of_slot h]
  cases hnode : slot.present? with
  | none => simp
  | some node =>
    cases node with
    | file bytes => simp [Node.contents?]
    | directory entries => exact absurd hnode (hpresent entries)

theorem isEntryName_of_slot (h : disk.slot path = .ok slot) (hnamed : slot.named) :
    IsEntryName slot.last := by
  obtain ⟨-, -, hlast, -⟩ := slot_eq_ok h
  simp only [Slot.named, bne_iff_ne, Bool.and_eq_true] at hnamed
  refine ⟨hnamed.1.1, hnamed.1.2, hnamed.2, ?_⟩
  have hmem : slot.last ∈ trimmedParts path := by
    cases hget : (trimmedParts path).getLast? with
    | none =>
      rw [hget] at hlast
      exact absurd hlast hnamed.1.1
    | some last =>
      rw [hget] at hlast
      rw [hlast]
      exact List.mem_of_getLast? hget
  have hpart : slot.last ∈ path.parts := by
    rw [trimmedParts, List.mem_reverse] at hmem
    exact List.mem_reverse.mp ((List.dropWhile_sublist _).subset hmem)
  exact Text.not_mem_of_mem_pieces hpart

theorem shows_put (node : Node) (hordered : disk.top.Ordered) (hname : IsEntryName slot.last)
    (hdirectory : disk.view slot.directory = some none)
    (hpresent : disk.view slot.location ≠ some none) (hnode : node.Ordered)
    (hleaf : ∀ name rest, node.held? (name :: rest) = none) :
    (disk.put slot node).Shows disk.here
      (disk.view.set slot.location (some node.contents?)) := by
  refine ⟨rfl, ?_, funext fun location => ?_⟩
  · exact Node.ordered_update (fun entries => Entries.ordered_set hname hnode) hordered _
  · obtain ⟨entries, hentries⟩ := Node.held?_eq_directory.mp hdirectory
    have hput := at?_put node hentries
    by_cases hbehind : slot.location <+: location
    · obtain ⟨rest, rfl⟩ := hbehind
      cases rest with
      | nil => simp [View.set, view, Node.held?, hput]
      | cons name rest =>
        have hbefore := view_behind hpresent (List.prefix_append _ (name :: rest)) (by simp)
        have hafter : (disk.put slot node).view (slot.location ++ name :: rest) = none := by
          rw [view, Node.held?, Node.at?_append, hput]
          exact hleaf name rest
        simp [View.set, hafter, hbefore]
    · have hne : location ≠ slot.location := by
        rintro rfl
        exact hbehind (List.prefix_refl _)
      simp only [View.set, hne, ↓reduceIte]
      exact held?_put hbehind disk node

theorem shows_clear (hordered : disk.top.Ordered) (hdirectory : disk.view slot.directory = some none)
    (hpresent : disk.view slot.location ≠ some none) :
    (disk.clear slot).Shows disk.here (disk.view.set slot.location none) := by
  refine ⟨rfl, ?_, funext fun location => ?_⟩
  · exact Node.ordered_update (fun entries h => (Entries.ordered_erase _ h).1) hordered _
  · obtain ⟨entries, hentries⟩ := Node.held?_eq_directory.mp hdirectory
    by_cases hbehind : slot.location <+: location
    · have hafter : (disk.clear slot).view location = none := by
        obtain ⟨rest, rfl⟩ := hbehind
        have hupdate := Node.at?_update hentries (Entries.erase slot.last)
        have herase := (Entries.ordered_erase slot.last (Node.ordered_of_at? hordered hentries)).2
        rw [view, Node.held?, Slot.location, List.append_assoc, Node.at?_append, clear, hupdate]
        simp [Node.at?, herase]
      have hbefore : disk.view.set slot.location none location = none := by
        rw [View.set]
        split
        · rfl
        · exact view_behind hpresent hbehind (Ne.symm (by assumption))
      rw [hafter, hbefore]
    · have hne : location ≠ slot.location := by
        rintro rfl
        exact hbehind (List.prefix_refl _)
      simp only [View.set, hne, ↓reduceIte]
      exact held?_clear hbehind disk

private theorem held?_file_cons (contents : Contents) (name : Name) (rest : Location) :
    (Node.file contents).held? (name :: rest) = none := rfl

theorem makeDirectory_ok (hordered : disk.top.Ordered) (h : disk.makeDirectory path = .ok after) :
    disk.view (disk.place path) = none ∧
      after.Shows disk.here (disk.view.set (disk.place path) (some none)) := by
  obtain ⟨slot, hslot, hnamed, hnone, rfl⟩ := makeDirectory_eq_ok h
  have hview := view_location_of_slot hslot
  rw [hnone] at hview
  rw [← location_of_slot hslot hnamed]
  exact ⟨hview, shows_put _ hordered (isEntryName_of_slot hslot hnamed)
    (view_directory_of_slot hslot) (by simp [hview]) trivial fun _ _ => rfl⟩

theorem write_ok (hordered : disk.top.Ordered) (h : disk.write path contents = .ok after) :
    disk.view (disk.place path) ≠ some none ∧
      after.Shows disk.here (disk.view.set (disk.place path) (some (some contents))) := by
  obtain ⟨slot, hslot, hnamed, -, hpresent, rfl⟩ := write_eq_ok h
  have hview := view_location_ne_of_slot hslot hpresent
  rw [← location_of_slot hslot hnamed]
  exact ⟨hview, shows_put _ hordered (isEntryName_of_slot hslot hnamed)
    (view_directory_of_slot hslot) hview trivial (held?_file_cons contents)⟩

theorem remove_ok (hordered : disk.top.Ordered) (h : disk.remove path = .ok after) :
    ∃ contents, disk.view (disk.place path) = some (some contents) ∧
      after.Shows disk.here (disk.view.set (disk.place path) none) := by
  obtain ⟨slot, contents, hslot, hnamed, hpresent, rfl⟩ := remove_eq_ok h
  have hview := view_location_of_slot hslot
  rw [hpresent] at hview
  rw [← location_of_slot hslot hnamed]
  exact ⟨contents, hview,
    shows_clear hordered (view_directory_of_slot hslot) (by simp [hview, Node.contents?])⟩

theorem rename_ok (hordered : disk.top.Ordered) (h : disk.rename source target = .ok after) :
    ∃ contents, disk.view (disk.place source) = some (some contents) ∧
      disk.view (disk.place target) ≠ some none ∧
        after.Shows disk.here ((disk.view.set (disk.place source) none).set (disk.place target)
          (some (some contents))) := by
  obtain ⟨old, new, contents, hmoves, rfl⟩ := rename_eq_ok h
  have hview := view_location_of_slot hmoves.oldSlot
  rw [hmoves.file] at hview
  have htarget := view_location_ne_of_slot hmoves.newSlot hmoves.free
  have hcleared := shows_clear hordered (view_directory_of_slot hmoves.oldSlot)
    (by simp [hview, Node.contents?])
  have hdirectory : (disk.clear old).view new.directory = some none := by
    have hbefore := view_directory_of_slot hmoves.newSlot
    rw [hcleared.view, View.set]
    split
    · rename_i heq
      rw [heq, hview] at hbefore
      cases hbefore
    · exact hbefore
  have hempty : (disk.clear old).view new.location ≠ some none := by
    rw [hcleared.view, View.set]
    split
    · simp
    · exact htarget
  have hput := shows_put (.file contents) hcleared.ordered
    (isEntryName_of_slot hmoves.newSlot hmoves.newNamed) hdirectory hempty trivial
    (held?_file_cons contents)
  rw [hcleared.view] at hput
  rw [← location_of_slot hmoves.oldSlot hmoves.oldNamed,
    ← location_of_slot hmoves.newSlot hmoves.newNamed]
  exact ⟨contents, hview, htarget, hput⟩

/-- Whether a disk is still ordered and has all directories that it had. -/
structure Grows (before after : Disk) : Prop where
  here : after.here = before.here
  ordered : after.top.Ordered
  directories : ∀ location, before.view location = some none → after.view location = some none

theorem Grows.refl (hordered : disk.top.Ordered) : Grows disk disk := ⟨rfl, hordered, fun _ h => h⟩

theorem Grows.trans {first second third : Disk} (h : Grows first second) (h' : Grows second third) :
    Grows first third :=
  ⟨h'.here.trans h.here, h'.ordered, fun location hview =>
    h'.directories location (h.directories location hview)⟩

theorem Shows.grows {location : Location} {what : Option (Option Contents)}
    (h : after.Shows disk.here (disk.view.set location what))
    (hlocation : disk.view location ≠ some none) : Grows disk after := by
  refine ⟨h.here, h.ordered, fun other hother => ?_⟩
  have hne : other ≠ location := by
    rintro rfl
    exact hlocation hother
  rw [h.view, View.set, if_neg hne]
  exact hother

theorem grows_makeDirectory (hordered : disk.top.Ordered)
    (h : disk.makeDirectory path = .ok after) : Grows disk after := by
  obtain ⟨hnone, hshows⟩ := makeDirectory_ok hordered h
  exact hshows.grows (by simp [hnone])

theorem grows_write (hordered : disk.top.Ordered) (h : disk.write path contents = .ok after) :
    Grows disk after := by
  obtain ⟨hview, hshows⟩ := write_ok hordered h
  exact hshows.grows hview

theorem grows_remove (hordered : disk.top.Ordered) (h : disk.remove path = .ok after) :
    Grows disk after := by
  obtain ⟨contents, hview, hshows⟩ := remove_ok hordered h
  exact hshows.grows (by simp [hview])

theorem grows_rename (hordered : disk.top.Ordered) (h : disk.rename source target = .ok after) :
    Grows disk after := by
  obtain ⟨contents, hsource, htarget, hshows⟩ := rename_ok hordered h
  refine ⟨hshows.here, hshows.ordered, fun location hlocation => ?_⟩
  have hneTarget : location ≠ disk.place target := by
    rintro rfl
    exact htarget hlocation
  have hneSource : location ≠ disk.place source := by
    rintro rfl
    rw [hsource] at hlocation
    cases hlocation
  rw [hshows.view, View.set, if_neg hneTarget, View.set, if_neg hneSource]
  exact hlocation

/-- A path still names the same entry after something was put there. -/
theorem slot_put {node : Node} (h : disk.slot path = .ok slot)
    (hgrows : Grows disk (disk.put slot node)) :
    (disk.put slot node).slot path =
      .ok { slot with entries := slot.entries.set slot.last node } := by
  obtain ⟨hfollow, -, hlast, hspelling, hlong, hshort, hslash⟩ := slot_eq_ok h
  have hdirectory := hgrows.directories _ (view_directory_of_slot h)
  have hafter := followAll_of_grows hfollow hgrows.directories (by simp [hdirectory])
  have hat := Node.at?_update (at?_directory_of_slot h) (Entries.set slot.last node)
  have hentries : (disk.put slot node).entriesAt slot.directory =
      .ok (slot.entries.set slot.last node) := by
    rw [entriesAt, put, hat]
  have hstart : (disk.put slot node).start path = disk.start path := rfl
  rw [Disk.slot, if_neg hspelling, if_neg (by simp [hlong]), hstart]
  dsimp only
  rw [hafter]
  dsimp only
  rw [hentries, ← hlast, ← hslash]
  exact if_neg (Nat.not_lt.mpr hshort)

theorem remove_of_slot (h : disk.slot path = .ok slot) (hnamed : slot.named)
    (hpresent : slot.present? = some (.file contents)) (hslash : slot.slash = false) :
    disk.remove path = .ok (disk.clear slot) := by
  rw [remove, h]
  simp only [hnamed, hpresent, hslash, ↓reduceIte, Bool.false_eq_true]

theorem remove_of_write (hordered : disk.top.Ordered) (h : disk.write path contents = .ok after) :
    ∃ removed, after.remove path = .ok removed := by
  have hgrows := grows_write hordered h
  obtain ⟨slot, hslot, hnamed, hslash, -, rfl⟩ := write_eq_ok h
  have hpresent : (slot.entries.set slot.last (.file contents)).find? slot.last =
      some (.file contents) := by
    rw [Entries.find?_set, if_pos rfl]
  exact ⟨_, remove_of_slot (slot_put hslot hgrows) hnamed hpresent hslash⟩

/-- A file that can be read still can be when directories stay, whatever it holds by then. -/
theorem read_of_grows {other : Disk} {bytes : Contents} (h : disk.read path = .ok contents)
    (hgrows : Grows disk other) (hheld : other.held? path = some (some bytes)) :
    other.read path = .ok bytes := by
  obtain ⟨hlong, hspelling, hfollow, -⟩ := read_eq_ok_iff.mp h
  have hplace := place_congr hgrows.here path
  have hview : other.view (disk.place path) ≠ none := by
    rw [← hplace, ← held?_eq_view, hheld]
    simp
  refine read_eq_ok_iff.mpr ⟨hlong, hspelling, ?_, hheld⟩
  rw [hplace, start, hgrows.here, ← start]
  exact followAll_of_grows hfollow hgrows.directories hview

private theorem trimmedParts_eq (h : path.spelling ≠ [])
    (hslash : path.spelling.getLast? ≠ some '/') :
    ∃ init last, path.parts = init ++ [last] ∧ last ≠ [] ∧ trimmedParts path = init ++ [last] := by
  obtain ⟨init, last, front, hparts, -, hspelling, hfront⟩ :=
    Text.exists_pieces_eq_concat '/' path.spelling
  have hlast : last ≠ [] := by
    rintro rfl
    rw [List.append_nil] at hspelling
    obtain rfl | ⟨body, rfl⟩ := hfront
    · exact h hspelling
    · exact hslash (by rw [hspelling]; simp)
  refine ⟨init, last, hparts, hlast, ?_⟩
  rw [trimmedParts, Path.parts, hparts]
  simp [hlast]

/-- A slot for a file leads to what is put there. -/
theorem followAll_of_slot {other : Disk} (h : disk.slot path = .ok slot) (hnamed : slot.named)
    (hslash : slot.slash = false) (hgrows : Grows disk other)
    (hview : other.view (disk.place path) ≠ none) :
    isTooLong path = false ∧ path.spelling ≠ [] ∧
      other.followAll (disk.start path) path.parts = .ok (disk.place path) := by
  obtain ⟨hfollow, -, hlast, hspelling, hlong, hshort, hend⟩ := slot_eq_ok h
  have hlocation := location_of_slot h hnamed
  have hdirectory := hgrows.directories _ (view_directory_of_slot h)
  obtain ⟨init, last, hparts, -, htrimmed⟩ :=
    trimmedParts_eq hspelling (by simpa [hslash] using hend.symm)
  rw [htrimmed, List.dropLast_concat] at hfollow
  rw [htrimmed, List.getLast?_concat, Option.getD_some] at hlast
  have hfront := followAll_of_grows hfollow hgrows.directories (by simp [hdirectory])
  refine ⟨hlong, hspelling, ?_⟩
  rw [hparts, followAll_append, hfront, ← hlocation, ← hlast]
  refine followAll_cons_eq_ok_iff.mpr ⟨_, follow_eq_ok_iff.mpr ⟨hdirectory, ?_, ?_⟩, rfl⟩
  · rw [enter_name _ (isEntryName_of_slot h hnamed), Slot.location]
  · rw [hlocation]
    exact fun _ _ _ => ⟨hshort, hview⟩

/-- A file that was moved can be read where it was moved to. -/
theorem read_of_rename (hordered : disk.top.Ordered) (h : disk.rename source target = .ok after) :
    ∃ contents, disk.held? source = some (some contents) ∧ after.read target = .ok contents := by
  obtain ⟨contents, hsource, -, hshows⟩ := rename_ok hordered h
  have hgrows := grows_rename hordered h
  have hplace := place_congr hgrows.here target
  have hheld : after.held? target = some (some contents) := by
    rw [held?_eq_view, hplace, hshows.view, View.set, if_pos rfl]
  obtain ⟨old, new, _, hmoves, -⟩ := rename_eq_ok h
  obtain ⟨hlong, hspelling, hfollow⟩ := followAll_of_slot hmoves.newSlot hmoves.newNamed hmoves.slash
    hgrows (by rw [← hplace, ← held?_eq_view, hheld]; simp)
  refine ⟨contents, hsource, read_eq_ok_iff.mpr ⟨hlong, hspelling, ?_, hheld⟩⟩
  rw [hplace, start, hgrows.here, ← start]
  exact hfollow

end Disk

end BehaviorRegistrar
