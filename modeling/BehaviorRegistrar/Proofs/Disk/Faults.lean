import BehaviorRegistrar.Proofs.Writing

/-!
# The faults of a modelled disk

A modelled disk refuses an operation for one of a few reasons, and what it says then ends in the number
of the reason. So does what the writing of an output is refused with.
-/

namespace BehaviorRegistrar

namespace Disk

/-- Whether a result is not a fault without a number. -/
def IsNumbered {α : Type} (result : Except DiskFault α) : Prop :=
  ∀ message, result ≠ .error (.other message)

variable {disk : Disk}

theorem isNumbered_ok {α : Type} (value : α) : IsNumbered (.ok value) := by
  simp [IsNumbered]

theorem isNumbered_entriesAt (location : Location) : IsNumbered (disk.entriesAt location) := by
  intro message
  fun_cases entriesAt disk location <;> simp_all

theorem isNumbered_follow (location : Location) (part : List Char) :
    IsNumbered (disk.follow location part) := by
  intro message
  have hentries := disk.isNumbered_entriesAt location message
  fun_cases follow disk location part <;> simp_all

theorem isNumbered_followAll (location : Location) (parts : List (List Char)) :
    IsNumbered (disk.followAll location parts) := by
  induction parts generalizing location with
  | nil => simp [IsNumbered, followAll, pure, Except.pure]
  | cons part rest ih =>
    intro message
    rw [followAll_cons]
    cases hfollow : disk.follow location part with
    | error fault =>
      rw [← hfollow]
      simpa [hfollow, Except.bind] using disk.isNumbered_follow location part message
    | ok next => exact ih next message

theorem isNumbered_locate (path : Path) : IsNumbered (disk.locate path) := by
  rw [locate]
  split
  · simp [IsNumbered]
  · exact isNumbered_followAll _ _

theorem isNumbered_node (path : Path) : IsNumbered (disk.node path) := by
  intro message
  have hlocate := disk.isNumbered_locate path message
  fun_cases node disk path <;> simp_all

theorem isNumbered_read (path : Path) : IsNumbered (disk.read path) := by
  intro message
  have hnode := disk.isNumbered_node path message
  fun_cases read disk path <;> simp_all

theorem isNumbered_slot (path : Path) : IsNumbered (disk.slot path) := by
  intro message
  have hfollow := disk.isNumbered_followAll (disk.start path) (trimmedParts path).dropLast message
  rw [slot]
  split
  · simp
  · split
    · simp
    · dsimp only
      split
      · simp_all
      · rename_i directory _
        have hentries := disk.isNumbered_entriesAt directory message
        split
        · simp_all
        · split <;> simp

theorem isNumbered_makeDirectory (path : Path) : IsNumbered (disk.makeDirectory path) := by
  intro message
  have hslot := disk.isNumbered_slot path message
  fun_cases makeDirectory disk path <;> simp_all

theorem isNumbered_create (path : Path) : IsNumbered (disk.create path) := by
  intro message
  have hslot := disk.isNumbered_slot path message
  fun_cases create disk path <;> simp_all

theorem isNumbered_write (path : Path) (contents : Contents) :
    IsNumbered (disk.write path contents) := by
  intro message
  have hcreate := disk.isNumbered_create path message
  fun_cases write disk path contents <;> simp_all

theorem isNumbered_rename (source target : Path) : IsNumbered (disk.rename source target) := by
  intro message
  have hsource := disk.isNumbered_slot source message
  have htarget := disk.isNumbered_slot target message
  fun_cases rename disk source target <;> simp_all

end Disk

namespace Output

open Disk OnDisk

theorem isNumbered_makeOne (path : Path) (disk : Disk) : IsNumbered (makeOne path disk).1 := by
  intro message
  have hmake := disk.isNumbered_makeDirectory path message
  rw [makeOne]
  split
  · simp
  · split <;> simp_all

theorem isNumbered_makeDirectories (path : Path) (disk : Disk) :
    IsNumbered ((makeDirectories path : OnDisk (Except DiskFault Unit)) disk).1 := by
  by_cases hspelling : path.spelling = []
  · rw [makeDirectories, if_pos hspelling]
    exact isNumbered_ok ()
  · rw [makeDirectories_apply hspelling]
    split
    · split
      · simp [IsNumbered]
      · rename_i parent hparent
        have hmade := isNumbered_makeDirectories parent disk
        split
        · rename_i hresult
          rwa [hresult] at hmade
        · exact isNumbered_makeOne path _
    · exact isNumbered_makeOne path disk
termination_by path.spelling.length
decreasing_by exact Path.length_lt_of_parent? (by assumption)

theorem isNumbered_deliver (source target : Path) (contents : Contents) (disk : Disk) :
    IsNumbered (deliver source target contents disk).1 := by
  intro message
  have hwrite := disk.isNumbered_write source contents message
  rw [deliver]
  split
  · simp_all
  · rename_i written _
    have hrename := written.isNumbered_rename source target message
    rw [settle]
    split <;> simp_all

theorem isNumbered_write (run : Nat) (path : Path) (content : String) (disk : Disk) :
    IsNumbered ((write run path content : OnDisk (Except DiskFault Unit)) disk).1 := by
  have hmade := isNumbered_makeDirectories (directory path) disk
  rw [write_apply]
  split
  · rename_i hresult
    rwa [hresult] at hmade
  · exact isNumbered_deliver _ _ _ _

end Output

end BehaviorRegistrar
