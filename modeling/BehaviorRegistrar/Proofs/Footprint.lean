import BehaviorRegistrar.Proofs.Directories
import BehaviorRegistrar.Proofs.Naming

/-!
# What writing an output comes to

For an output at a straight path, the result of writing it and the locations it changes can be told
from what the disk shows: whether a file is on the way to its directory, and whether a directory
stands at its place or at that of the file beside it. So outputs that keep out of each other's way can
be written in either order.
-/

namespace BehaviorRegistrar.Output

open OnDisk Disk

variable {path other source target : Path} {run : Nat} {disk : Disk} {view view' : View}
  {patch : Patch} {contents : Contents} {location : Location} {what : Option (Option Contents)}

/-- What moving a file to its target comes to, and what it changes after a patch that leaves the file
out. -/
def settlement (target : Path) (contents : Contents) (view : View) (patch : Patch) :
    Except DiskFault Unit × Patch :=
  if isRefused target then (.error .nameTooLong, patch)
  else if view target.names = some none then (.error .isADirectory, patch)
  else (.ok (), patch.set target.names (some (some contents)))

def delivery (source target : Path) (contents : Contents) (view : View) (patch : Patch) :
    Except DiskFault Unit × Patch :=
  if isRefused source then (.error .nameTooLong, patch)
  else if view source.names = some none then (.error .isADirectory, patch)
  else settlement target contents view (patch.set source.names none)

/-- What writing an output to a path comes to, and what it changes, on a disk with a view. -/
def footprint (run : Nat) (path : Path) (contents : Contents) (view : View) :
    Except DiskFault Unit × Patch :=
  let folder := (directory path).names
  if isTooLong (directory path) then (.error .nameTooLong, .empty)
  else if view.isBlocked (reachable folder) then
    (.error (if (view folder).join.isSome then .alreadyThere else .notADirectory), .empty)
  else if reachable folder ≠ folder then (.error .nameTooLong, .directories (reachable folder))
  else delivery (temporary path run) path contents view (.directories folder)

theorem settle_of_fault {fault : DiskFault} (hordered : disk.top.Ordered) (h : source.IsStraight)
    (hend : source.EndsInName) (haccess : disk.access source = .ok ())
    (hfile : disk.view source.names = some (some contents))
    (hrename : disk.rename source target = .error fault) :
    ∃ after, settle source target disk = (.error fault, after) ∧
      after.Shows disk.here (disk.view.set source.names none) := by
  obtain ⟨after, hremoved, hshows⟩ := remove_done hordered h hend haccess hfile
  rw [settle, hrename, hremoved]
  exact ⟨after, rfl, hshows⟩

section Delivering

variable {names : Location} {first last : Name} (hordered : disk.top.Ordered)
  (h : source.IsStraight) (hend : source.EndsInName) (h' : target.IsStraight)
  (hend' : target.EndsInName) (hsource : source.names = names ++ [first])
  (htarget : target.names = names ++ [last]) (hreachable : reachable names = names)
  (habove : disk.view names = some none) (htargetView : disk.view target.names = view target.names)

include hordered h hend h' hend' hsource htarget hreachable habove htargetView

theorem settle_eq_settlement (hrefused : isRefused source = false)
    (hfile : disk.view source.names = some (some contents))
    (hview : disk.view.set source.names none = view.patched patch) :
    ∃ after, settle source target disk = ((settlement target contents view patch).1, after) ∧
      after.Shows disk.here (view.patched (settlement target contents view patch).2) := by
  have haccess := access_of_directory hsource hreachable habove
  have haccess' := access_of_directory htarget hreachable habove
  rw [hrefused] at haccess
  rw [settlement, ← htargetView]
  cases hrefused' : isRefused target with
  | true =>
    rw [hrefused'] at haccess'
    simp only [↓reduceIte]
    rw [← hview]
    exact settle_of_fault hordered h hend haccess hfile
      (rename_refused h hend haccess h' hend' haccess')
  | false =>
    rw [hrefused'] at haccess'
    by_cases hdirectory : disk.view target.names = some none
    · simp only [Bool.false_eq_true, hdirectory, ↓reduceIte]
      rw [← hview]
      exact settle_of_fault hordered h hend haccess hfile
        (rename_directory h hend haccess hfile h' hend' haccess' hdirectory)
    · obtain ⟨after, hmoved, hafter⟩ :=
        rename_done hordered h hend haccess hfile h' hend' haccess' hdirectory
      simp only [Bool.false_eq_true, hdirectory, ↓reduceIte]
      rw [settle, hmoved, View.patched_set, ← hview]
      exact ⟨after, rfl, hafter⟩

theorem deliver_eq_delivery (hne : source.names ≠ target.names)
    (hview : disk.view = view.patched patch)
    (hsourceView : disk.view source.names = view source.names) :
    ∃ after, deliver source target contents disk =
        ((delivery source target contents view patch).1, after) ∧
      after.Shows disk.here (view.patched (delivery source target contents view patch).2) := by
  have haccess := access_of_directory hsource hreachable habove
  rw [deliver, delivery, ← hsourceView]
  cases hrefused : isRefused source with
  | true =>
    rw [hrefused] at haccess
    rw [write_refused h hend haccess]
    exact ⟨disk, rfl, rfl, hordered, hview⟩
  | false =>
    rw [hrefused] at haccess
    by_cases hdirectory : disk.view source.names = some none
    · rw [write_directory h hend haccess hdirectory]
      simp only [Bool.false_eq_true, hdirectory, ↓reduceIte]
      exact ⟨disk, rfl, rfl, hordered, hview⟩
    · obtain ⟨written, hwritten, hshows⟩ := write_done hordered h hend contents haccess hdirectory
      have hother : ∀ location, location ≠ source.names →
          written.view location = disk.view location := fun location hlocation => by
        rw [hshows.view, View.set, if_neg hlocation]
      have habove' : written.view names = some none :=
        (hother names (by simp [hsource])).trans habove
      have hfile : written.view source.names = some (some contents) := by
        rw [hshows.view, View.set, if_pos rfl]
      have hcleared : written.view.set source.names none =
          view.patched (patch.set source.names none) := by
        rw [hshows.view, View.set_set, View.patched_set, hview]
      rw [hwritten]
      simp only [Bool.false_eq_true, hdirectory, ↓reduceIte]
      rw [← hshows.here]
      exact settle_eq_settlement hshows.ordered h hend h' hend' hsource htarget hreachable habove'
        ((hother _ hne.symm).trans htargetView) hrefused hfile hcleared

end Delivering

/-- Writing an output comes to what its footprint says. -/
theorem write_eq_footprint (hordered : disk.top.Ordered) (htop : disk.view [] = some none)
    (h : path.IsStraight) (hend : path.EndsInName) (run : Nat) (content : String) :
    ∃ after, (write run path content : OnDisk (Except DiskFault Unit)) disk =
        ((footprint run path (Text.encode content) disk.view).1, after) ∧
      after.Shows disk.here
        (disk.view.patched (footprint run path (Text.encode content) disk.view).2) := by
  obtain ⟨hfolder, hfolderEnd, hfolderNames⟩ := directory_of_straight h hend
  obtain ⟨hbeside, hbesideEnd, names, name, hnames, hbesideNames⟩ := temporary_of_straight h hend run
  rw [hnames, List.dropLast_concat] at hfolderNames
  rw [write_apply, footprint]
  obtain ⟨hlong, hmake⟩ | ⟨hlong, hblocked, hmake⟩ | ⟨hlong, hblocked, made, hmake, hmade⟩ :=
    makeDirectories_cases hordered htop hfolder hfolderEnd <;> rw [hmake]
  · simp only [hlong, ↓reduceIte]
    exact ⟨disk, rfl, rfl, hordered, rfl⟩
  · simp only [hlong, hblocked, ↓reduceIte, Bool.false_eq_true]
    exact ⟨disk, rfl, rfl, hordered, rfl⟩
  · simp only [hlong, hblocked, ↓reduceIte, Bool.false_eq_true]
    rw [hfolderNames] at hmade ⊢
    by_cases hreachable : reachable names = names
    · rw [hreachable] at hmade
      simp only [hreachable, ↓reduceIte, ne_eq, not_true_eq_false]
      have habove : made.view names = some none := by
        rw [hmade.view, View.made, if_pos (List.prefix_refl names)]
      have hview : ∀ other, made.view (names ++ [other]) = disk.view (names ++ [other]) :=
        fun other => by rw [hmade.view, View.made_of_ne]
      rw [← hmade.here]
      exact deliver_eq_delivery hmade.ordered hbeside hbesideEnd h hend hbesideNames hnames hreachable
        habove (by rw [hnames, hview]) (names_temporary_ne h hend run)
        (hmade.view.trans (View.patched_directories _ _).symm) (by rw [hbesideNames, hview])
    · simp only [hreachable, ↓reduceIte, ne_eq, not_false_eq_true]
      exact ⟨made, rfl, by rwa [View.patched_directories]⟩

/-- Whether two outputs keep out of each other's way. -/
structure Apart (run : Nat) (path other : Path) : Prop where
  left : ¬ path.names <+: other.names
  right : ¬ other.names <+: path.names
  besideLeft : ¬ (temporary path run).names <+: other.names
  besideRight : ¬ (temporary other run).names <+: path.names
  besides : (temporary path run).names ≠ (temporary other run).names

theorem of_settlement (h : (settlement target contents view patch).2 location = some what) :
    patch location = some what ∨
      what = some (some contents) ∧ location = target.names ∧ view location ≠ some none := by
  rw [settlement] at h
  split at h
  · exact .inl h
  split at h
  · exact .inl h
  rename_i hnot
  refine (Patch.of_set h).imp_right ?_
  rintro ⟨rfl, rfl⟩
  exact ⟨rfl, rfl, hnot⟩

theorem of_delivery (h : (delivery source target contents view patch).2 location = some what) :
    patch location = some what ∨
      what = none ∧ location = source.names ∧ view location ≠ some none ∨
      what = some (some contents) ∧ location = target.names ∧ view location ≠ some none := by
  rw [delivery] at h
  split at h
  · exact .inl h
  split at h
  · exact .inl h
  rename_i hbeside
  obtain h | h := of_settlement h
  · refine (Patch.of_set h).imp_right fun heq => .inl ?_
    obtain ⟨rfl, rfl⟩ := heq
    exact ⟨rfl, rfl, hbeside⟩
  · exact .inr (.inr h)

theorem of_directories {reached folder : Location} (hreached : reached <+: folder)
    (hfree : view.isBlocked reached = false)
    (h : Patch.directories reached location = some what) :
    what = some none ∧ location <+: folder ∧ (view location).join = none := by
  rw [Patch.directories] at h
  split at h
  · rename_i hstart
    refine ⟨(Option.some.inj h).symm, hstart.trans hreached, ?_⟩
    cases hfile : (view location).join with
    | none => rfl
    | some bytes =>
      rw [View.isBlocked_iff.mpr ⟨location, bytes, hstart, Option.join_eq_some_iff.mp hfile⟩] at hfree
      cases hfree
  · cases h

theorem of_footprint (h : (footprint run path contents view).2 location = some what) :
    what = some none ∧ location <+: (directory path).names ∧ (view location).join = none ∨
      what = none ∧ location = (temporary path run).names ∧ view location ≠ some none ∨
      what = some (some contents) ∧ location = path.names ∧ view location ≠ some none := by
  rw [footprint] at h
  split at h
  · cases h
  split at h
  · cases h
  rename_i hfree
  have hfree := Bool.eq_false_iff.mpr hfree
  split at h
  · exact .inl (of_directories (reachable_start _) hfree h)
  rename_i hreachable
  rw [Decidable.not_not.mp hreachable] at hfree
  exact (of_delivery h).imp_left (of_directories (List.prefix_refl _) hfree)

theorem footprint_congr
    (hfiles : ∀ front, front <+: (directory path).names →
      (view' front).join.isSome = (view front).join.isSome)
    (hbeside : view' (temporary path run).names = some none ↔
      view (temporary path run).names = some none)
    (hpath : view' path.names = some none ↔ view path.names = some none) :
    footprint run path contents view' = footprint run path contents view := by
  have hblocked : view'.isBlocked (reachable (directory path).names) =
      view.isBlocked (reachable (directory path).names) := by
    rw [Bool.eq_iff_iff, View.isBlocked, View.isBlocked, List.any_eq_true, List.any_eq_true]
    refine exists_congr fun front => and_congr_right fun hfront => ?_
    rw [hfiles front (((List.mem_inits _ _).mp hfront).trans (reachable_start _))]
  simp only [footprint, delivery, settlement, hblocked, hfiles _ (List.prefix_refl _), hbeside, hpath]

/-- An output does not change the footprint of one that keeps out of its way. -/
theorem footprint_patched (h : path.IsStraight) (hend : path.EndsInName) (h' : other.IsStraight)
    (hend' : other.EndsInName) (hapart : Apart run path other) (contents contents' : Contents)
    (view : View) :
    footprint run other contents' (view.patched (footprint run path contents view).2) =
      footprint run other contents' view := by
  have hfolder := directory_above h hend
  have hfolder' := directory_above h' hend'
  refine footprint_congr (fun front hfront => ?_) ?_ ?_ <;> rw [View.patched]
  · have hfront := hfront.trans hfolder'
    cases hpatch : (footprint run path contents view).2 front with
    | none => rfl
    | some what =>
      obtain ⟨rfl, -, hfile⟩ | ⟨-, rfl, -⟩ | ⟨-, rfl, -⟩ := of_footprint hpatch
      · rw [hfile]
        rfl
      · exact absurd hfront hapart.besideLeft
      · exact absurd hfront hapart.left
  · cases hpatch : (footprint run path contents view).2 (temporary other run).names with
    | none => rfl
    | some what =>
      obtain ⟨-, hstart, -⟩ | ⟨-, heq, -⟩ | ⟨-, heq, -⟩ := of_footprint hpatch
      · exact absurd (hstart.trans hfolder) hapart.besideRight
      · exact absurd heq.symm hapart.besides
      · exact absurd (heq ▸ List.prefix_refl _) hapart.besideRight
  · cases hpatch : (footprint run path contents view).2 other.names with
    | none => rfl
    | some what =>
      obtain ⟨-, hstart, -⟩ | ⟨-, heq, -⟩ | ⟨-, heq, -⟩ := of_footprint hpatch
      · exact absurd (hstart.trans hfolder) hapart.right
      · exact absurd (heq ▸ List.prefix_refl _) hapart.besideLeft
      · exact absurd (heq ▸ List.prefix_refl _) hapart.left

/-- What two outputs change that keep out of each other's way can be changed in either order. -/
theorem patched_footprint_comm (h : path.IsStraight) (hend : path.EndsInName)
    (h' : other.IsStraight) (hend' : other.EndsInName) (hapart : Apart run path other)
    (contents contents' : Contents) (view : View) :
    (view.patched (footprint run path contents view).2).patched
        (footprint run other contents' view).2 =
      (view.patched (footprint run other contents' view).2).patched
        (footprint run path contents view).2 := by
  have hfolder := directory_above h hend
  have hfolder' := directory_above h' hend'
  refine View.patched_comm view fun location what what' hwhat hwhat' => ?_
  obtain ⟨rfl, hstart, -⟩ | ⟨-, rfl, -⟩ | ⟨-, rfl, -⟩ := of_footprint hwhat <;>
    obtain ⟨rfl, hstart', -⟩ | ⟨-, heq, -⟩ | ⟨-, heq, -⟩ := of_footprint hwhat'
  · rfl
  · exact absurd (heq ▸ hstart.trans hfolder) hapart.besideRight
  · exact absurd (heq ▸ hstart.trans hfolder) hapart.right
  · exact absurd (hstart'.trans hfolder') hapart.besideLeft
  · exact absurd heq hapart.besides
  · exact absurd (heq ▸ List.prefix_refl _) hapart.besideLeft
  · exact absurd (hstart'.trans hfolder') hapart.left
  · exact absurd (heq ▸ List.prefix_refl _) hapart.besideRight
  · exact absurd (heq ▸ List.prefix_refl _) hapart.left

end BehaviorRegistrar.Output
