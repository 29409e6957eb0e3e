import BehaviorRegistrar.Output
import BehaviorRegistrar.Proofs.Disk.Changes
import BehaviorRegistrar.Proofs.Lineage

/-!
# Writing an output

Writing an output makes its directories, writes a file beside it and moves that file to its place.
Whatever becomes of it, no file but the output and the file beside it is touched, and no directory is
lost. When the writing is refused the output is not touched either; when it is not, the output holds
the text.
-/

namespace BehaviorRegistrar

namespace OnDisk

/-- What the disks before and after an action can be related by. -/
structure IsFrame (R : Disk → Disk → Prop) : Prop where
  refl : ∀ disk, R disk disk
  trans : ∀ {first second third}, R first second → R second third → R first third

theorem isFrame_keeps (places : List Location) : IsFrame (Disk.Keeps places) :=
  ⟨Disk.Keeps.refl places, Disk.Keeps.trans⟩

def Within {α : Type} (R : Disk → Disk → Prop) (action : OnDisk α) : Prop :=
  ∀ disk, R disk (action disk).2

variable {α β : Type} {places : List Location} {R : Disk → Disk → Prop}

theorem within_pure (hR : IsFrame R) (value : α) : Within R (pure value) := hR.refl

theorem within_bind (hR : IsFrame R) {action : OnDisk α} {next : α → OnDisk β}
    (haction : Within R action) (hnext : ∀ value, Within R (next value)) :
    Within R (action >>= next) := fun disk =>
  hR.trans (haction disk) (hnext (action disk).1 (action disk).2)

theorem within_attempt (hR : IsFrame R) {change : Disk → Except DiskFault Disk}
    (h : ∀ disk after, change disk = .ok after → R disk after) : Within R (attempt change) := by
  intro disk
  rw [attempt]
  split
  · exact h disk _ ‹_›
  · exact hR.refl disk

theorem within_isDirectory (hR : IsFrame R) (path : Path) :
    Within R (Host.isDirectory path : OnDisk Bool) := hR.refl

theorem bind_apply (action : OnDisk α) (next : α → OnDisk β) (disk : Disk) :
    (action >>= next) disk = next (action disk).1 (action disk).2 := rfl

theorem pure_apply (value : α) (disk : Disk) : (pure value : OnDisk α) disk = (value, disk) := rfl

end OnDisk

namespace Output

open OnDisk

variable {R : Disk → Disk → Prop}

/-- Making directories stays within a relation when making each of them does. -/
theorem within_makeDirectories (hR : IsFrame R) (path : Path)
    (h : ∀ above ∈ path.ancestors, ∀ disk after,
      Disk.makeDirectory disk above = .ok after → R disk after) :
    Within R (makeDirectories path : OnDisk (Except DiskFault Unit)) := by
  have hmake : Within R (Host.makeDirectory path : OnDisk (Except DiskFault Unit)) :=
    within_attempt hR (h path path.mem_ancestors_self)
  rw [makeDirectories]
  split
  · exact within_pure hR _
  · refine within_bind hR hmake fun result => ?_
    split
    · exact within_pure hR _
    · split
      · exact within_pure hR _
      · rename_i parent hparent
        have habove : ∀ above ∈ parent.ancestors, above ∈ path.ancestors := fun above hmem => by
          rw [Path.ancestors_of_parent? hparent]
          exact List.mem_cons_of_mem path hmem
        refine within_bind hR (within_makeDirectories hR parent fun above hmem =>
          h above (habove above hmem)) fun made => ?_
        split
        · exact within_pure hR _
        · refine within_bind hR hmake fun again => ?_
          split
          · exact within_pure hR _
          · refine within_bind hR (within_isDirectory hR path) fun present => ?_
            split <;> exact within_pure hR _
    · refine within_bind hR (within_isDirectory hR path) fun present => ?_
      split <;> exact within_pure hR _
termination_by path.spelling.length
decreasing_by exact Path.length_lt_of_parent? (by assumption)

def makeOne (path : Path) (disk : Disk) : Except DiskFault Unit × Disk :=
  match disk.makeDirectory path with
  | .ok after => (.ok (), after)
  | .error fault => (if disk.isDirectory path then .ok () else .error fault, disk)

private theorem welcome_apply (fault : DiskFault) (path : Path) (disk : Disk) :
    (do if ← Host.isDirectory path then return .ok () else return .error fault :
      OnDisk (Except DiskFault Unit)) disk =
        (if disk.isDirectory path then .ok () else .error fault, disk) := by
  rw [bind_apply]
  simp only [Host.isDirectory]
  split <;> rfl

/-- Making directories, as a function of the disk. -/
theorem makeDirectories_apply {path : Path} (hspelling : path.spelling ≠ []) (disk : Disk) :
    (makeDirectories path : OnDisk (Except DiskFault Unit)) disk =
      match disk.makeDirectory path with
      | .error .notFound =>
        match path.parent? with
        | none => (.error .notFound, disk)
        | some parent =>
          match (makeDirectories parent : OnDisk (Except DiskFault Unit)) disk with
          | (.error fault, made) => (.error fault, made)
          | (.ok (), made) => makeOne path made
      | _ => makeOne path disk := by
  rw [makeDirectories, if_neg hspelling, bind_apply, makeOne]
  simp only [Host.makeDirectory, attempt]
  cases disk.makeDirectory path with
  | ok after => rfl
  | error fault =>
    cases fault with
    | notFound =>
      dsimp only
      split
      · rename_i hparent
        rw [hparent]
        rfl
      · rename_i parent hparent
        rw [hparent]
        dsimp only
        rw [bind_apply]
        generalize (makeDirectories parent : OnDisk (Except DiskFault Unit)) disk = result
        obtain ⟨fault | _, made⟩ := result
        · rfl
        · dsimp only
          rw [bind_apply, makeOne]
          simp only [attempt]
          cases made.makeDirectory path with
          | ok after => rfl
          | error fault => exact welcome_apply fault path made
    | _ => exact welcome_apply _ path disk

def settle (source target : Path) (disk : Disk) : Except DiskFault Unit × Disk :=
  match disk.rename source target with
  | .ok after => (.ok (), after)
  | .error fault => (.error fault, (disk.remove source).toOption.getD disk)

def deliver (source target : Path) (contents : Contents) (disk : Disk) :
    Except DiskFault Unit × Disk :=
  match disk.write source contents with
  | .error fault => (.error fault, disk)
  | .ok written => settle source target written

/-- Writes a file on a device and moves it to its target. A file whose bytes are not stored is left. -/
def deliverOn (device : Device) (source target : Path) (contents : Contents) (disk : Disk) :
    Except DiskFault Unit × Disk :=
  match disk.create source with
  | .error fault => (.error fault, disk)
  | .ok (file, created) =>
    match device.stop? file contents with
    | some (count, fault) => (.error fault, created.append file (contents.take count))
    | none =>
      match device.unsynced? file with
      | some fault => (.error fault, created.append file contents)
      | none => settle source target (created.append file contents)

theorem deliverOn_steady (source target : Path) (contents : Contents) (disk : Disk) :
    deliverOn .steady source target contents disk = deliver source target contents disk := by
  rw [deliverOn, deliver, Disk.write]
  cases disk.create source <;> rfl

def writeOn (device : Device) (run : Nat) (path : Path) (content : String) :
    OnDisk (Except DiskFault Unit) :=
  @write OnDisk _ device.host run path content

theorem makeDirectories_host (device : Device) (path : Path) :
    @makeDirectories OnDisk _ device.host path =
      (makeDirectories path : OnDisk (Except DiskFault Unit)) := by
  unfold makeDirectories
  split
  · rfl
  · refine congrArg _ (funext fun result => ?_)
    split
    · rfl
    · split
      · rfl
      · rw [makeDirectories_host device]
        rfl
    · rfl
termination_by path.spelling.length
decreasing_by exact Path.length_lt_of_parent? (by assumption)

theorem writeOn_apply (device : Device) (run : Nat) (path : Path) (content : String) (disk : Disk) :
    writeOn device run path content disk =
      match (makeDirectories (directory path) : OnDisk (Except DiskFault Unit)) disk with
      | (.error fault, made) => (.error fault, made)
      | (.ok (), made) =>
        deliverOn device (temporary path run) path (Text.encode content) made := by
  unfold writeOn write
  rw [bind_apply, makeDirectories_host]
  generalize (makeDirectories (directory path) : OnDisk (Except DiskFault Unit)) disk = result
  obtain ⟨fault | _, made⟩ := result
  · rfl
  · dsimp only
    rw [bind_apply, deliverOn]
    dsimp only [Host.createFile, OnDisk.create]
    cases made.create (temporary path run) with
    | error fault => rfl
    | ok opened =>
      obtain ⟨file, created⟩ := opened
      dsimp only
      rw [bind_apply]
      dsimp only [Host.appendFile, Device.append]
      cases device.stop? file (Text.encode content) with
      | some stopped => rfl
      | none =>
        dsimp only
        rw [bind_apply]
        dsimp only [Host.syncFile, Device.sync]
        cases device.unsynced? file with
        | some fault => rfl
        | none =>
          dsimp only
          rw [bind_apply, settle]
          dsimp only [Host.renameFile, attempt]
          cases (created.append file (Text.encode content)).rename (temporary path run) path with
          | ok after => rfl
          | error fault =>
            dsimp only
            rw [bind_apply]
            dsimp only [Host.removeFile, attempt]
            cases (created.append file (Text.encode content)).remove (temporary path run) <;> rfl

/-- Writing an output, as a function of the disk. -/
theorem write_apply (run : Nat) (path : Path) (content : String) (disk : Disk) :
    (write run path content : OnDisk (Except DiskFault Unit)) disk =
      match (makeDirectories (directory path) : OnDisk (Except DiskFault Unit)) disk with
      | (.error fault, made) => (.error fault, made)
      | (.ok (), made) => deliver (temporary path run) path (Text.encode content) made := by
  simp only [← deliverOn_steady]
  exact writeOn_apply .steady run path content disk

/-- Writing an output stays within a relation when its operations do. -/
theorem within_write (hR : IsFrame R)
    (hmake : ∀ path disk after, Disk.makeDirectory disk path = .ok after → R disk after)
    (hwrite : ∀ path contents disk after, Disk.write disk path contents = .ok after → R disk after)
    (hrename : ∀ source target disk after,
      Disk.rename disk source target = .ok after → R disk after)
    (hremove : ∀ path disk after, Disk.remove disk path = .ok after → R disk after)
    (run : Nat) (path : Path) (content : String) :
    Within R (write run path content : OnDisk (Except DiskFault Unit)) := by
  intro disk
  have hmade := within_makeDirectories hR (directory path) (fun above _ => hmake above) disk
  rw [write_apply]
  generalize (makeDirectories (directory path) : OnDisk (Except DiskFault Unit)) disk = result
    at hmade ⊢
  obtain ⟨fault | _, made⟩ := result
  · exact hmade
  · refine hR.trans hmade ?_
    dsimp only
    rw [deliver]
    cases hwritten : made.write (temporary path run) (Text.encode content) with
    | error fault => exact hR.refl made
    | ok written =>
      refine hR.trans (hwrite _ _ _ _ hwritten) ?_
      dsimp only
      rw [settle]
      cases hmoved : written.rename (temporary path run) path with
      | ok after => exact hrename _ _ _ _ hmoved
      | error fault =>
        cases hremoved : written.remove (temporary path run) with
        | ok after => exact hremove _ _ _ hremoved
        | error other => exact hR.refl written

theorem deliver_eq_ok {source target : Path} {contents : Contents} {disk after : Disk}
    (h : deliver source target contents disk = (.ok (), after)) :
    ∃ written, disk.write source contents = .ok written ∧
      written.rename source target = .ok after := by
  rw [deliver] at h
  cases hwrite : disk.write source contents with
  | error fault =>
    rw [hwrite] at h
    cases h
  | ok written =>
    rw [hwrite] at h
    dsimp only at h
    rw [settle] at h
    cases hrename : written.rename source target with
    | error fault =>
      rw [hrename] at h
      cases h
    | ok moved =>
      rw [hrename] at h
      exact ⟨written, rfl, hrename.trans (congrArg Except.ok (Prod.mk.inj h).2)⟩

/-- An output that is written was written beside its place and then moved there. -/
theorem write_eq_ok {run : Nat} {path : Path} {content : String} {disk after : Disk}
    (h : (write run path content : OnDisk (Except DiskFault Unit)) disk = (.ok (), after)) :
    ∃ first second,
      (makeDirectories (directory path) : OnDisk (Except DiskFault Unit)) disk = (.ok (), first) ∧
        first.write (temporary path run) (Text.encode content) = .ok second ∧
          second.rename (temporary path run) path = .ok after := by
  rw [write_apply] at h
  generalize (makeDirectories (directory path) : OnDisk (Except DiskFault Unit)) disk = made at h ⊢
  obtain ⟨made | _, first⟩ := made
  · cases h
  · obtain ⟨second, hwrite, hrename⟩ := deliver_eq_ok h
    exact ⟨first, second, rfl, hwrite, hrename⟩

def Growth (before after : Disk) : Prop := before.top.Ordered → Disk.Grows before after

theorem isFrame_growth : IsFrame Growth where
  refl _ hordered := Disk.Grows.refl hordered
  trans h h' hordered := (h hordered).trans (h' (h hordered).ordered)

theorem growth_makeDirectories (path : Path) :
    Within Growth (makeDirectories path : OnDisk (Except DiskFault Unit)) :=
  within_makeDirectories isFrame_growth path fun _ _ _ _ h hordered =>
    Disk.grows_makeDirectory hordered h

theorem growth_write (run : Nat) (path : Path) (content : String) :
    Within Growth (write run path content : OnDisk (Except DiskFault Unit)) :=
  within_write isFrame_growth (fun _ _ _ h hordered => Disk.grows_makeDirectory hordered h)
    (fun _ _ _ _ h hordered => Disk.grows_write hordered h)
    (fun _ _ _ _ h hordered => Disk.grows_rename hordered h)
    (fun _ _ _ h hordered => Disk.grows_remove hordered h) run path content

/-- An output that is written can be read at its path. -/
theorem read_of_write {run : Nat} {path : Path} {content : String} {disk after : Disk}
    (hordered : disk.top.Ordered)
    (h : (write run path content : OnDisk (Except DiskFault Unit)) disk = (.ok (), after)) :
    after.read path = .ok (Text.encode content) := by
  obtain ⟨first, second, hmade, hwrite, hrename⟩ := write_eq_ok h
  have hfirst := (growth_makeDirectories (directory path) disk hordered).ordered
  rw [hmade] at hfirst
  obtain ⟨contents, hheld, hread⟩ :=
    Disk.read_of_rename (Disk.grows_write hfirst hwrite).ordered hrename
  have hwritten := (Disk.keeps_write hwrite).2
  have hplace := Disk.place_congr (Disk.grows_write hfirst hwrite).here (temporary path run)
  rw [Disk.held?, hplace, ← hplace, ← Disk.held?, hwritten] at hheld
  rw [hread, ← Option.some.inj (Option.some.inj hheld)]

/-- What delivering a file does to the files of a disk. -/
theorem deliver_spec (source target : Path) (contents : Contents) (disk : Disk) :
    match deliver source target contents disk with
    | (.error _, after) => Disk.Keeps [disk.place source] disk after
    | (.ok (), after) =>
      Disk.Keeps [disk.place source, disk.place target] disk after ∧
        after.held? target = some (some contents) := by
  rw [deliver]
  cases hwrite : disk.write source contents with
  | error fault => exact Disk.Keeps.refl _ disk
  | ok written =>
    obtain ⟨hwritten, hheld⟩ := Disk.keeps_write hwrite
    dsimp only
    rw [settle]
    cases hrename : written.rename source target with
    | ok after =>
      obtain ⟨hmoved, hout⟩ := Disk.keeps_rename hrename
      rw [hwritten.place, hwritten.place] at hmoved
      exact ⟨(hwritten.mono (by simp)).trans hmoved, hout.trans hheld⟩
    | error fault =>
      cases hremove : written.remove source with
      | error fault => exact hwritten
      | ok after =>
        have hremoved := Disk.keeps_remove hremove
        rw [hwritten.place] at hremoved
        exact hwritten.trans hremoved

/-- What writing an output does to the files of a disk. -/
theorem write_spec (run : Nat) (path : Path) (content : String) (disk : Disk) :
    match (write run path content : OnDisk (Except DiskFault Unit)) disk with
    | (.error _, after) => Disk.Keeps [disk.place (temporary path run)] disk after
    | (.ok (), after) =>
      Disk.Keeps [disk.place (temporary path run), disk.place path] disk after ∧
        after.held? path = some (some (Text.encode content)) := by
  have hmade : Disk.Keeps [] disk
      ((makeDirectories (directory path) : OnDisk (Except DiskFault Unit)) disk).2 :=
    within_makeDirectories (isFrame_keeps []) (directory path)
      (fun _ _ _ _ => Disk.keeps_makeDirectory) disk
  rw [write_apply]
  generalize (makeDirectories (directory path) : OnDisk (Except DiskFault Unit)) disk = made
    at hmade ⊢
  obtain ⟨made | _, first⟩ := made
  · exact hmade.mono (List.nil_subset _)
  · have hspec := deliver_spec (temporary path run) path (Text.encode content) first
    rw [hmade.place, hmade.place] at hspec
    dsimp only
    generalize deliver (temporary path run) path (Text.encode content) first = result at hspec ⊢
    obtain ⟨fault | _, after⟩ := result
    · exact (hmade.mono (List.nil_subset _)).trans hspec
    · exact ⟨(hmade.mono (List.nil_subset _)).trans hspec.1, hspec.2⟩

end Output

end BehaviorRegistrar
