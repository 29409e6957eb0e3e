import BehaviorRegistrar.Proofs.Disk.Patches
import BehaviorRegistrar.Proofs.Naming
import BehaviorRegistrar.Proofs.Results
import BehaviorRegistrar.Proofs.Writing

/-!
# Outputs appear whole or not at all

Making the directories of a path, however it is spelled, adds directories at the places of the paths
above it and changes nothing else. A file that is delivered is at its target with all its bytes, or
nothing has become of it but what the device has stored beside the target before it stopped. So an
output that is written is all that is new besides its directories, and one that is refused leaves every
file as it was.
-/

namespace BehaviorRegistrar

namespace Disk

/-- Whether a disk has the same as before, and maybe new directories at some locations. -/
structure Adds (locations : List Location) (before after : Disk) : Prop where
  here : after.here = before.here
  ordered : after.top.Ordered
  view : ∀ location, after.view location = before.view location ∨
    location ∈ locations ∧ before.view location = none ∧ after.view location = some none

namespace Adds

variable {locations : List Location} {first second third : Disk} {location : Location}
  {contents : Contents}

theorem refl (hordered : first.top.Ordered) : Adds locations first first :=
  ⟨rfl, hordered, fun _ => .inl rfl⟩

theorem trans (h : Adds locations first second) (h' : Adds locations second third) :
    Adds locations first third := by
  refine ⟨h'.here.trans h.here, h'.ordered, fun location => ?_⟩
  obtain hfirst | ⟨hmem, hnone, hsome⟩ := h.view location
  · rw [← hfirst]
    exact h'.view location
  · obtain hsecond | ⟨-, hother, -⟩ := h'.view location
    · exact .inr ⟨hmem, hnone, hsecond.trans hsome⟩
    · rw [hsome] at hother
      cases hother

theorem view_eq (h : Adds locations first second) (hview : first.view location ≠ none) :
    second.view location = first.view location := by
  obtain hsame | ⟨-, hnone, -⟩ := h.view location
  · exact hsame
  · exact absurd hnone hview

theorem file_iff (h : Adds locations first second) :
    second.view location = some (some contents) ↔ first.view location = some (some contents) := by
  obtain hsame | ⟨-, hnone, hsome⟩ := h.view location
  · rw [hsame]
  · simp [hnone, hsome]

end Adds

variable {disk after : Disk} {path : Path}

theorem adds_makeDirectory {locations : List Location} (hordered : disk.top.Ordered)
    (hmem : disk.place path ∈ locations) (h : disk.makeDirectory path = .ok after) :
    Adds locations disk after := by
  obtain ⟨hnone, hshows⟩ := makeDirectory_ok hordered h
  refine ⟨hshows.here, hshows.ordered, fun location => ?_⟩
  rw [hshows.view, View.set]
  split
  · rename_i hlocation
    rw [hlocation]
    exact .inr ⟨hmem, hnone, rfl⟩
  · exact .inl rfl

end Disk

namespace Device

/-- Whether a device stores bytes for a file, all of them and for good. -/
def Stores (device : Device) (file : Location) (bytes : Contents) : Prop :=
  device.stop? file bytes = none ∧ device.unsynced? file = none

theorem stores_steady (file : Location) (bytes : Contents) : steady.Stores file bytes := ⟨rfl, rfl⟩

end Device

namespace Output

open OnDisk

variable {disk after : Disk} {source target path : Path} {contents : Contents} {run : Nat}

def Addition (here : Location) (locations : List Location) (before after : Disk) : Prop :=
  before.here = here → before.top.Ordered → Disk.Adds locations before after

theorem isFrame_addition (here : Location) (locations : List Location) :
    IsFrame (Addition here locations) where
  refl _ _ hordered := Disk.Adds.refl hordered
  trans h h' hhere hordered :=
    (h hhere hordered).trans (h' ((h hhere hordered).here.trans hhere) (h hhere hordered).ordered)

/-- Making the directories of a path adds directories at the places of the paths above it. -/
theorem adds_makeDirectories (hordered : disk.top.Ordered) (path : Path) :
    Disk.Adds (path.ancestors.map disk.place) disk
      ((makeDirectories path : OnDisk (Except DiskFault Unit)) disk).2 := by
  refine within_makeDirectories (isFrame_addition disk.here (path.ancestors.map disk.place)) path
    (fun above habove before after hmake hhere hordered => ?_) disk rfl hordered
  have hplace := Disk.place_congr hhere above
  refine Disk.adds_makeDirectory hordered ?_ hmake
  rw [hplace]
  exact List.mem_map_of_mem habove

theorem settle_view {written : Disk} (hordered : disk.top.Ordered)
    (hwrite : disk.write source contents = .ok written) (target : Path) :
    match settle source target written with
    | (.error _, after) => after.view = disk.view.set (disk.place source) none
    | (.ok (), after) =>
      disk.view (disk.place target) ≠ some none ∧
        after.view = (disk.view.set (disk.place source) none).set (disk.place target)
          (some (some contents)) := by
  obtain ⟨hsource, hshows⟩ := Disk.write_ok hordered hwrite
  have hplace := Disk.place_congr hshows.here
  have hfile : written.view (disk.place source) = some (some contents) := by
    rw [hshows.view, View.set, if_pos rfl]
  rw [settle]
  cases hrename : written.rename source target with
  | ok after =>
    obtain ⟨moved, hmoved, htarget, hafter⟩ := Disk.rename_ok hshows.ordered hrename
    rw [hplace, hfile] at hmoved
    obtain rfl := Option.some.inj (Option.some.inj hmoved)
    refine ⟨fun hdirectory => htarget ?_, ?_⟩
    · have hne : disk.place target ≠ disk.place source := fun heq => hsource (heq ▸ hdirectory)
      rw [hplace, hshows.view, View.set, if_neg hne, hdirectory]
    · rw [hafter.view, hplace, hplace, hshows.view, View.set_set]
  | error fault =>
    obtain ⟨removed, hremove⟩ := Disk.remove_of_write hordered hwrite
    obtain ⟨-, -, hafter⟩ := Disk.remove_ok hshows.ordered hremove
    rw [hremove]
    change removed.view = _
    rw [hafter.view, hplace, hshows.view, View.set_set]

/-- What may be left of a file that was not delivered: nothing, or what the device has stored. -/
def Remains (device : Device) (file : Location) (contents : Contents) (left : Option Contents) : Prop :=
  left = none ∨ ¬ device.Stores file contents ∧ ∃ kept, left = some kept ∧ kept <+: contents

theorem Remains.eq_none {device : Device} {file : Location} {left : Option Contents}
    (h : Remains device file contents left) (hstores : device.Stores file contents) : left = none :=
  h.resolve_right fun hstopped => hstopped.1 hstores

/-- What delivering a file on a device shows afterwards. -/
theorem deliverOn_view (hordered : disk.top.Ordered) (device : Device) (source target : Path)
    (contents : Contents) :
    match deliverOn device source target contents disk with
    | (.error _, after) =>
      after.view = disk.view ∨
        disk.view (disk.place source) ≠ some none ∧
          ∃ left, Remains device (disk.place source) contents left ∧
            after.view = disk.view.set (disk.place source) (left.map some)
    | (.ok (), after) =>
      device.Stores (disk.place source) contents ∧
        disk.view (disk.place source) ≠ some none ∧ disk.view (disk.place target) ≠ some none ∧
          after.view = (disk.view.set (disk.place source) none).set (disk.place target)
            (some (some contents)) := by
  rw [deliverOn]
  cases hcreate : disk.create source with
  | error fault => exact .inl rfl
  | ok opened =>
    obtain ⟨file, created⟩ := opened
    have hfile : file = disk.place source := by
      obtain ⟨slot, hslot, hnamed, -, -, rfl, -⟩ := Disk.create_eq_ok hcreate
      exact Disk.location_of_slot hslot hnamed
    have hwrite : ∀ bytes, disk.write source bytes = .ok (created.append file bytes) := fun bytes => by
      rw [Disk.write, hcreate]
    have hstopped : ∀ kept, kept <+: contents → ¬ device.Stores (disk.place source) contents →
        disk.view (disk.place source) ≠ some none ∧
          ∃ left, Remains device (disk.place source) contents left ∧
            (created.append file kept).view = disk.view.set (disk.place source) (left.map some) := by
      intro kept hkept hnot
      obtain ⟨hsource, hshows⟩ := Disk.write_ok hordered (hwrite kept)
      exact ⟨hsource, some kept, .inr ⟨hnot, kept, rfl, hkept⟩, hshows.view⟩
    dsimp only
    cases hstop : device.stop? file contents with
    | some stopped =>
      refine .inr (hstopped _ (List.take_prefix _ _) fun hstores => ?_)
      rw [← hfile] at hstores
      cases hstop.symm.trans hstores.1
    | none =>
      dsimp only
      cases hsync : device.unsynced? file with
      | some fault =>
        refine .inr (hstopped _ (List.prefix_refl _) fun hstores => ?_)
        rw [← hfile] at hstores
        cases hsync.symm.trans hstores.2
      | none =>
        have hsource := (Disk.write_ok hordered (hwrite contents)).1
        have hsettled := settle_view hordered (hwrite contents) target
        dsimp only
        generalize settle source target (created.append file contents) = settled at hsettled ⊢
        obtain ⟨fault | _, after⟩ := settled
        · exact .inr ⟨hsource, none, .inl rfl, hsettled⟩
        · exact ⟨hfile ▸ ⟨hstop, hsync⟩, hsource, hsettled⟩

theorem writeOn_view (hordered : disk.top.Ordered) (device : Device) (run : Nat) (path : Path)
    (content : String) :
    ∃ made, Disk.Adds ((directory path).ancestors.map disk.place) disk made ∧
      match writeOn device run path content disk with
      | (.error _, after) =>
        after.view = made.view ∨
          made.view (disk.place (temporary path run)) ≠ some none ∧
            ∃ left, Remains device (disk.place (temporary path run)) (Text.encode content) left ∧
              after.view = made.view.set (disk.place (temporary path run)) (left.map some)
      | (.ok (), after) =>
        device.Stores (disk.place (temporary path run)) (Text.encode content) ∧
          made.view (disk.place (temporary path run)) ≠ some none ∧
            made.view (disk.place path) ≠ some none ∧
              after.view = (made.view.set (disk.place (temporary path run)) none).set
                (disk.place path) (some (some (Text.encode content))) := by
  have hmade := adds_makeDirectories hordered (directory path)
  rw [writeOn_apply]
  generalize (makeDirectories (directory path) : OnDisk (Except DiskFault Unit)) disk = result
    at hmade ⊢
  obtain ⟨fault | _, made⟩ := result
  · exact ⟨made, hmade, .inl rfl⟩
  · have hview := deliverOn_view hmade.ordered device (temporary path run) path (Text.encode content)
    rw [Disk.place_congr hmade.here, Disk.place_congr hmade.here] at hview
    exact ⟨made, hmade, hview⟩

/-- A file that is new or other than before is an output that was written. -/
theorem file_of_write {content : String} {result : Except DiskFault Unit} {location : Location}
    (hordered : disk.top.Ordered)
    (h : (write run path content : OnDisk (Except DiskFault Unit)) disk = (result, after))
    (hfile : after.view location = some (some contents)) :
    disk.view location = some (some contents) ∨ result = .ok () ∧ location = disk.place path := by
  obtain ⟨made, hmade, hview⟩ := writeOn_view hordered .steady run path content
  rw [show writeOn .steady run path content disk = (result, after) from h] at hview
  have hcleared : ∀ other,
      made.view.set other none location = some (some contents) →
        disk.view location = some (some contents) := by
    intro other hother
    rw [View.set] at hother
    split at hother
    · cases hother
    · exact hmade.file_iff.mp hother
  cases result with
  | error fault =>
    refine .inl ?_
    obtain hsame | ⟨-, left, hremains, hleft⟩ := hview
    · rw [hsame] at hfile
      exact hmade.file_iff.mp hfile
    · obtain rfl := hremains.eq_none (Device.stores_steady _ _)
      rw [hleft] at hfile
      exact hcleared _ hfile
  | ok written =>
    obtain ⟨-, -, -, hwritten⟩ := hview
    by_cases hlocation : location = disk.place path
    · exact .inr ⟨rfl, hlocation⟩
    · rw [hwritten, View.set, if_neg hlocation] at hfile
      exact .inl (hcleared _ hfile)

end Output

namespace Disk

variable {disk : Disk} {path : Path} {contents : Contents}

/-- Whether no file can be put to a path: one stands on the way to it, or a directory at its end, or
a slash follows. -/
def Obstructs (disk : Disk) (path : Path) : Prop :=
  path.spelling.getLast? = some '/' ∨ disk.view (disk.place path) = some none ∨
    ∃ above ∈ path.ancestors.tail, ∃ bytes, disk.view (disk.place above) = some (some bytes)

theorem exists_parent_of_read (h : disk.read path = .ok contents) :
    ∃ parent, path.parent? = some parent ∧ path.ancestors.tail = parent.ancestors ∧
      ∀ above ∈ parent.ancestors, disk.view (disk.place above) = some none := by
  obtain ⟨-, -, hfollow, -⟩ := read_eq_ok_iff.mp h
  obtain ⟨front, name, location, hspelling, hfront, hname, -⟩ := exists_name_of_file (node_of_read h)
  obtain ⟨names, last, hnames⟩ := (Path.endsInName_of_spelling hname hspelling hfront).exists_names
  have hne : path.names ≠ [] := by simp [hnames]
  obtain ⟨-, hnone⟩ | ⟨parent, hparent, -⟩ := path.parent?_cases
  · exact absurd hnone hne
  · refine ⟨parent, hparent, by rw [Path.ancestors_of_parent? hparent, List.tail_cons], ?_⟩
    obtain ⟨hleads, hdirectory⟩ :=
      followAll_parent hparent hne (followAll_names_of_parts hfollow)
    exact fun above habove => view_of_mem_ancestors habove hleads hdirectory

theorem getLast?_ne_slash_of_read (h : disk.read path = .ok contents) :
    path.spelling.getLast? ≠ some '/' := by
  obtain ⟨front, name, location, hspelling, -, hname, -⟩ := exists_name_of_file (node_of_read h)
  intro hslash
  obtain ⟨init, last, rfl⟩ := List.eq_nil_or_concat name |>.resolve_left hname.1
  simp only [hspelling, List.concat_eq_append, ← List.append_assoc, List.getLast?_concat] at hslash
  exact hname.2.2.2 (by simp [Option.some.inj hslash])

end Disk

namespace Output

open OnDisk

variable {disk after : Disk} {path : Path} {run : Nat}

/-- No output is written to a path to which no file can be put. -/
theorem not_obstructs_of_write {content : String} (hordered : disk.top.Ordered)
    (h : (write run path content : OnDisk (Except DiskFault Unit)) disk = (.ok (), after)) :
    ¬ disk.Obstructs path := by
  have hread := read_of_write hordered h
  have hhere := (growth_write run path content disk hordered).here
  obtain ⟨made, hmade, hview⟩ := writeOn_view hordered .steady run path content
  rw [show writeOn .steady run path content disk = (.ok (), after) from h] at hview
  rw [h] at hhere
  obtain ⟨-, -, htarget, hview⟩ := hview
  obtain ⟨parent, hparent, htail, habove⟩ := Disk.exists_parent_of_read hread
  rintro (hslash | hend | ⟨above, hmem, bytes, hfile⟩)
  · exact Disk.getLast?_ne_slash_of_read hread hslash
  · exact htarget ((hmade.view_eq (by simp [hend])).trans hend)
  · have hnow := habove above (htail ▸ hmem)
    rw [Disk.place_congr hhere, hview, View.set, View.set,
      hmade.view_eq (by simp [hfile]), hfile] at hnow
    split at hnow
    · cases hnow
    · split at hnow <;> cases hnow

/-- Whether an output is at its path and its directories are on the way to it, and nothing else has
changed. -/
structure IsWritten (path : Path) (contents : Contents) (before after : Disk) : Prop where
  unobstructed : ¬ before.Obstructs path
  read : after.read path = .ok contents
  files : ∀ location, location ≠ before.place path → ∀ bytes,
    after.view location = some (some bytes) ↔ before.view location = some (some bytes)
  directories : ∀ location, after.view location = some none ↔
    before.view location = some none ∨ ∃ above ∈ path.ancestors.tail, location = before.place above

theorem IsWritten.view_eq {before after : Disk} (h : IsWritten path contents before after)
    (hhere : after.here = before.here) : after.view (before.place path) = some (some contents) := by
  obtain ⟨-, -, -, hheld⟩ := Disk.read_eq_ok_iff.mp h.read
  rwa [Disk.held?_eq_view, Disk.place_congr hhere] at hheld

end Output

end BehaviorRegistrar
