import BehaviorRegistrar.Proofs.Disk.Places

/-!
# What the operations of a disk leave alone

An operation on a path touches the file at the place of that path and no other. Making a directory
touches no file at all.
-/

namespace BehaviorRegistrar.Disk

/-- Whether the files outside of some places are all there still, with their bytes. -/
structure Keeps (places : List Location) (before after : Disk) : Prop where
  here : after.here = before.here
  held : ∀ location contents, location ∉ places →
    before.top.held? location = some (some contents) →
      after.top.held? location = some (some contents)

namespace Keeps

variable {places more : List Location} {first second third : Disk}

theorem refl (places : List Location) (disk : Disk) : Keeps places disk disk :=
  ⟨rfl, fun _ _ _ h => h⟩

theorem trans (h : Keeps places first second) (h' : Keeps places second third) :
    Keeps places first third :=
  ⟨h'.here.trans h.here, fun location contents hplaces hheld =>
    h'.held location contents hplaces (h.held location contents hplaces hheld)⟩

theorem mono (h : Keeps places first second) (hsub : places ⊆ more) : Keeps more first second :=
  ⟨h.here, fun location contents hmore => h.held location contents fun hin => hmore (hsub hin)⟩

theorem place (h : Keeps places first second) (path : Path) : second.place path = first.place path :=
  place_congr h.here path

end Keeps

private theorem foldl_enter_empty (location : Location) {parts : List (List Char)}
    (h : ∀ part ∈ parts, part = []) : parts.foldl enter location = location := by
  induction parts with
  | nil => rfl
  | cons part parts ih =>
    rw [List.foldl_cons, h part List.mem_cons_self]
    exact ih fun other hother => h other (List.mem_cons_of_mem part hother)

private theorem foldl_enter_trimmedParts (location : Location) (path : Path) :
    (trimmedParts path).foldl enter location = path.parts.foldl enter location := by
  have hempty : ∀ part ∈ (path.parts.reverse.takeWhile List.isEmpty).reverse, part = [] := by
    intro part hpart
    have := List.all_takeWhile (p := List.isEmpty) (l := path.parts.reverse)
    simpa using List.all_eq_true.mp this part (List.mem_reverse.mp hpart)
  calc (trimmedParts path).foldl enter location
      = (trimmedParts path ++ (path.parts.reverse.takeWhile List.isEmpty).reverse).foldl enter
          location := by rw [List.foldl_append, foldl_enter_empty _ hempty]
    _ = path.parts.foldl enter location := by
      rw [trimmedParts, ← List.reverse_append, List.takeWhile_append_dropWhile,
        List.reverse_reverse]

variable {disk after : Disk} {path source target : Path} {slot : Slot} {contents : Contents}

theorem slot_eq_ok (h : disk.slot path = .ok slot) :
    disk.followAll (disk.start path) (trimmedParts path).dropLast = .ok slot.directory ∧
      disk.entriesAt slot.directory = .ok slot.entries ∧
      slot.last = (trimmedParts path).getLast?.getD [] ∧
      path.spelling ≠ [] ∧ isTooLong path = false ∧ Text.byteLength slot.last ≤ nameLimit ∧
      slot.slash = (path.spelling.getLast? == some '/') := by
  rw [Disk.slot] at h
  split at h
  · cases h
  · rename_i hspelling
    split at h
    · cases h
    · rename_i hlong
      dsimp only at h
      split at h
      · cases h
      · rename_i directory hdirectory
        split at h
        · cases h
        · rename_i entries hentries
          split at h
          · cases h
          · rename_i hshort
            obtain rfl := Except.ok.inj h
            exact ⟨hdirectory, hentries, rfl, hspelling, by simpa using hlong,
              Nat.le_of_not_lt hshort, rfl⟩

theorem at?_directory_of_slot (h : disk.slot path = .ok slot) :
    disk.top.at? slot.directory = some (.directory slot.entries) := by
  obtain ⟨-, hentries, -⟩ := slot_eq_ok h
  fun_cases entriesAt disk slot.directory <;> simp_all [entriesAt]

/-- A slot that names an entry is at the place of its path. -/
theorem location_of_slot (h : disk.slot path = .ok slot) (hnamed : slot.named) :
    slot.location = disk.place path := by
  obtain ⟨hdirectory, -, hlast, -⟩ := slot_eq_ok h
  simp only [Slot.named, bne_iff_ne, Bool.and_eq_true] at hnamed
  obtain ⟨⟨hempty, hhere⟩, hup⟩ := hnamed
  have hparts : (trimmedParts path).dropLast ++ [slot.last] = trimmedParts path := by
    cases hget : (trimmedParts path).getLast? with
    | none =>
      rw [hget] at hlast
      exact absurd hlast hempty
    | some last =>
      obtain ⟨front, hfront⟩ := List.getLast?_eq_some_iff.mp hget
      simp [hlast, hfront]
  calc slot.location = enter slot.directory slot.last := by
        simp [Slot.location, enter, hempty, hhere, hup]
    _ = ((trimmedParts path).dropLast ++ [slot.last]).foldl enter (disk.start path) := by
        rw [List.foldl_append, ← followAll_eq_foldl hdirectory, List.foldl_cons, List.foldl_nil]
    _ = disk.place path := by
        rw [hparts, foldl_enter_trimmedParts, place]

theorem at?_location_of_slot (h : disk.slot path = .ok slot) :
    disk.top.at? slot.location = slot.present? := by
  rw [Slot.location, Node.at?_append, at?_directory_of_slot h]
  cases hfind : slot.entries.find? slot.last <;> simp [Node.at?, Slot.present?, hfind]

theorem not_prefix_of_slot (h : disk.slot path = .ok slot)
    (hpresent : ∀ entries, slot.present? ≠ some (.directory entries)) {location : Location}
    (hheld : disk.top.held? location ≠ none) (hne : location ≠ slot.location) :
    ¬ slot.location <+: location := by
  refine Node.not_prefix_of_held? ?_ hheld hne
  intro hdirectory
  obtain ⟨entries, hentries⟩ := Node.held?_eq_directory.mp hdirectory
  rw [at?_location_of_slot h] at hentries
  exact hpresent entries hentries

theorem held?_put {location : Location} (hbehind : ¬ slot.location <+: location)
    (disk : Disk) (node : Node) :
    (disk.put slot node).top.held? location = disk.top.held? location :=
  Node.held?_update (fun other hne entries => by simp [Entries.find?_set, hne]) hbehind disk.top

theorem held?_clear {location : Location} (hbehind : ¬ slot.location <+: location)
    (disk : Disk) : (disk.clear slot).top.held? location = disk.top.held? location :=
  Node.held?_update (fun _ hne entries => Entries.find?_erase_of_ne hne entries) hbehind disk.top

theorem at?_put {entries : Entries} (node : Node)
    (h : disk.top.at? slot.directory = some (.directory entries)) :
    (disk.put slot node).top.at? slot.location = some node := by
  have hdirectory := Node.at?_update h (Entries.set slot.last node)
  simp [Slot.location, Node.at?_append, put, hdirectory, Node.at?, Entries.find?_set]

/-! What an operation that succeeds has found, and what it has done. -/

theorem makeDirectory_eq_ok (h : disk.makeDirectory path = .ok after) :
    ∃ slot, disk.slot path = .ok slot ∧ slot.named ∧ slot.present? = none ∧
      after = disk.put slot (.directory .empty) := by
  rw [makeDirectory] at h
  split at h
  · cases h
  · rename_i slot hslot
    split at h
    · rename_i hnamed
      split at h
      · cases h
      · rename_i hnone
        exact ⟨slot, hslot, hnamed, hnone, (Except.ok.inj h).symm⟩
    · cases h

theorem append_put (disk : Disk) (slot : Slot) (contents bytes : Contents) :
    (disk.put slot (.file contents)).append slot.location bytes =
      disk.put slot (.file (contents ++ bytes)) := by
  rw [append, put, put, Slot.location, Node.extend_update]

theorem create_eq_ok {file : Location} (h : disk.create path = .ok (file, after)) :
    ∃ slot, disk.slot path = .ok slot ∧ slot.named ∧ slot.slash = false ∧
      (∀ entries, slot.present? ≠ some (.directory entries)) ∧
        file = slot.location ∧ after = disk.put slot (.file []) := by
  rw [create] at h
  split at h
  · cases h
  · rename_i slot hslot
    split at h
    · rename_i hnamed
      split at h
      · cases h
      · rename_i hpresent
        obtain ⟨rfl, rfl⟩ := Prod.mk.inj (Except.ok.inj h)
        exact ⟨slot, hslot, hnamed.1, hnamed.2, hpresent, rfl, rfl⟩
    · cases h

theorem write_of_slot (disk : Disk) (path : Path) (contents : Contents) :
    disk.write path contents =
      match disk.slot path with
      | .error fault => .error fault
      | .ok slot =>
        if slot.named ∧ slot.slash = false then
          match slot.present? with
          | some (.directory _) => .error .isADirectory
          | _ => .ok (disk.put slot (.file contents))
        else .error .isADirectory := by
  rw [write, create]
  cases disk.slot path with
  | error fault => rfl
  | ok slot =>
    by_cases hnamed : slot.named ∧ slot.slash = false
    · cases hpresent : slot.present? with
      | none => simp [hnamed, hpresent, append_put]
      | some node => cases node <;> simp [hnamed, hpresent, append_put]
    · simp [hnamed]

theorem write_eq_ok (h : disk.write path contents = .ok after) :
    ∃ slot, disk.slot path = .ok slot ∧ slot.named ∧ slot.slash = false ∧
      (∀ entries, slot.present? ≠ some (.directory entries)) ∧
        after = disk.put slot (.file contents) := by
  rw [write] at h
  split at h
  · cases h
  · rename_i file created hcreate
    obtain ⟨slot, hslot, hnamed, hslash, hpresent, rfl, rfl⟩ := create_eq_ok hcreate
    rw [append_put, List.nil_append] at h
    exact ⟨slot, hslot, hnamed, hslash, hpresent, (Except.ok.inj h).symm⟩

theorem remove_eq_ok (h : disk.remove path = .ok after) :
    ∃ slot contents, disk.slot path = .ok slot ∧ slot.named ∧
      slot.present? = some (.file contents) ∧ after = disk.clear slot := by
  rw [remove] at h
  split at h
  · cases h
  · rename_i slot hslot
    split at h
    · rename_i hnamed
      split at h
      · cases h
      · cases h
      · rename_i contents hpresent
        split at h
        · cases h
        · exact ⟨slot, contents, hslot, hnamed, hpresent, (Except.ok.inj h).symm⟩
    · cases h

structure Moves (disk : Disk) (source target : Path) (old new : Slot) (contents : Contents) :
    Prop where
  oldSlot : disk.slot source = .ok old
  newSlot : disk.slot target = .ok new
  oldNamed : old.named
  newNamed : new.named
  file : old.present? = some (.file contents)
  slash : new.slash = false
  free : ∀ entries, new.present? ≠ some (.directory entries)

theorem rename_eq_ok (h : disk.rename source target = .ok after) :
    ∃ old new contents, Moves disk source target old new contents ∧
      after = (disk.clear old).put new (.file contents) := by
  rw [rename] at h
  split at h
  · cases h
  · rename_i old hold
    split at h
    · cases h
    · rename_i new hnew
      split at h
      · rename_i hnamed
        split at h
        · cases h
        · cases h
        · rename_i contents hfile
          split at h
          · cases h
          · rename_i hslash
            split at h
            · cases h
            · rename_i hpresent
              have hslash : new.slash = false := by simpa using (not_or.mp hslash).2
              exact ⟨old, new, contents, ⟨hold, hnew, hnamed.1, hnamed.2, hfile, hslash, hpresent⟩,
                (Except.ok.inj h).symm⟩
      · cases h

theorem keeps_makeDirectory (h : disk.makeDirectory path = .ok after) : Keeps [] disk after := by
  obtain ⟨slot, hslot, -, hnone, rfl⟩ := makeDirectory_eq_ok h
  refine ⟨rfl, fun location contents _ hheld => ?_⟩
  have hne : location ≠ slot.location := by
    rintro rfl
    rw [Node.held?, at?_location_of_slot hslot, hnone] at hheld
    cases hheld
  rw [held?_put (not_prefix_of_slot hslot (by simp [hnone]) (by simp [hheld]) hne)]
  exact hheld

theorem keeps_write (h : disk.write path contents = .ok after) :
    Keeps [disk.place path] disk after ∧ after.held? path = some (some contents) := by
  obtain ⟨slot, hslot, hnamed, -, hpresent, rfl⟩ := write_eq_ok h
  have hlocation := location_of_slot hslot hnamed
  constructor
  · refine ⟨rfl, fun location bytes hplaces hheld => ?_⟩
    have hne : location ≠ slot.location := by simpa [hlocation] using hplaces
    rw [held?_put (not_prefix_of_slot hslot hpresent (by simp [hheld]) hne)]
    exact hheld
  · have hput := at?_put (.file contents) (at?_directory_of_slot hslot)
    rw [hlocation] at hput
    exact Node.held?_eq_file.mpr hput

theorem keeps_remove (h : disk.remove path = .ok after) : Keeps [disk.place path] disk after := by
  obtain ⟨slot, bytes, hslot, hnamed, hpresent, rfl⟩ := remove_eq_ok h
  refine ⟨rfl, fun location contents hplaces hheld => ?_⟩
  have hne : location ≠ slot.location := by
    simpa [location_of_slot hslot hnamed] using hplaces
  rw [held?_clear (not_prefix_of_slot hslot (by simp [hpresent]) (by simp [hheld]) hne)]
  exact hheld

/-- A file that is moved takes its bytes along. -/
theorem keeps_rename (h : disk.rename source target = .ok after) :
    Keeps [disk.place source, disk.place target] disk after ∧
      after.held? target = disk.held? source := by
  obtain ⟨old, new, bytes, hmoves, rfl⟩ := rename_eq_ok h
  have hsource := location_of_slot hmoves.oldSlot hmoves.oldNamed
  have htarget := location_of_slot hmoves.newSlot hmoves.newNamed
  have hfile := at?_location_of_slot hmoves.oldSlot
  rw [hmoves.file] at hfile
  have hbehind : ∀ location, disk.top.held? location ≠ none →
      location ≠ old.location → ¬ old.location <+: location := by
    intro location hheld hne
    exact not_prefix_of_slot hmoves.oldSlot (by simp [hmoves.file]) hheld hne
  constructor
  · refine ⟨rfl, fun location contents hplaces hheld => ?_⟩
    have hplaces : location ≠ old.location ∧ location ≠ new.location := by
      simpa [hsource, htarget] using hplaces
    rw [held?_put (not_prefix_of_slot hmoves.newSlot hmoves.free (by simp [hheld]) hplaces.2),
      held?_clear (hbehind location (by simp [hheld]) hplaces.1)]
    exact hheld
  · have hdirectory : disk.top.held? new.directory = some none :=
      Node.held?_eq_directory.mpr ⟨_, at?_directory_of_slot hmoves.newSlot⟩
    have hne : new.directory ≠ old.location := by
      intro heq
      rw [heq, Node.held?, hfile] at hdirectory
      cases hdirectory
    rw [← held?_clear (hbehind _ (by simp [hdirectory]) hne)] at hdirectory
    obtain ⟨entries, hentries⟩ := Node.held?_eq_directory.mp hdirectory
    have hput := at?_put (.file bytes) hentries
    rw [htarget] at hput
    rw [hsource] at hfile
    exact (Node.held?_eq_file.mpr hput).trans (Node.held?_eq_file.mpr hfile).symm

end BehaviorRegistrar.Disk
