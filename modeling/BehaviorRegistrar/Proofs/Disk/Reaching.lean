import BehaviorRegistrar.Proofs.Disk.Changes
import BehaviorRegistrar.Proofs.Straight
import Mathlib.Data.List.Basic

/-!
# What operations on straight paths come to

A straight path goes down through directories. The first thing on the way that is no directory, or
the first name that is too long, decides how an operation on it is refused; when there is none, it
depends on what stands at the end alone.
-/

namespace BehaviorRegistrar

namespace View

/-- Goes down names through directories. What the last name leads to is not looked at. -/
def reach (view : View) : Location → Location → Except DiskFault Unit
  | _, [] => .ok ()
  | location, name :: rest =>
    match view.enter location with
    | .error fault => .error fault
    | .ok () =>
      if Text.byteLength name ≤ Disk.nameLimit then view.reach (location ++ [name]) rest
      else .error .nameTooLong

/-- Goes down names and opens the directory at the end. -/
def arrive (view : View) (location names : Location) : Except DiskFault Unit :=
  (view.reach location names).bind fun _ => view.enter (location ++ names)

variable {view : View} {location names : Location} {name : Name}

theorem arrive_nil (view : View) (location : Location) :
    view.arrive location [] = view.enter location := by
  simp [arrive, reach, Except.bind]

theorem arrive_cons (view : View) (location : Location) (name : Name) (rest : Location) :
    view.arrive location (name :: rest) =
      (view.enter location).bind fun _ =>
        if Text.byteLength name ≤ Disk.nameLimit then view.arrive (location ++ [name]) rest
        else .error .nameTooLong := by
  rw [arrive, reach]
  cases view.enter location with
  | error fault => rfl
  | ok _ =>
    by_cases hshort : Text.byteLength name ≤ Disk.nameLimit
    · simp [hshort, arrive, Except.bind]
    · simp [hshort, Except.bind]

theorem reach_concat (view : View) (location names : Location) (name : Name) :
    view.reach location (names ++ [name]) =
      (view.arrive location names).bind fun _ =>
        if Text.byteLength name ≤ Disk.nameLimit then .ok () else .error .nameTooLong := by
  induction names generalizing location with
  | nil =>
    rw [List.nil_append, reach, arrive_nil]
    cases view.enter location <;> rfl
  | cons first rest ih =>
    rw [List.cons_append, reach, arrive_cons]
    cases view.enter location with
    | error fault => rfl
    | ok _ =>
      simp only [Except.bind]
      split
      · exact ih (location ++ [first])
      · rfl

theorem enter_bind_arrive (view : View) (location names : Location) :
    ((view.enter location).bind fun _ => view.arrive location names) =
      view.arrive location names := by
  cases names with
  | nil =>
    rw [arrive_nil]
    cases view.enter location <;> rfl
  | cons name rest =>
    rw [arrive_cons]
    cases view.enter location <;> rfl

theorem arrive_of_missing (h : view location = none) :
    view.arrive location names = .error .notFound := by
  rw [← enter_bind_arrive, enter, h]
  rfl

end View

namespace Disk

variable {disk after : Disk} {path source target : Path} {location names : Location} {name : Name}
  {contents : Contents}

/-- Following parts that never lead back, and opening what they lead to. -/
theorem followAll_bind_enter (disk : Disk) (location : Location) {parts : List (List Char)}
    (h : ['.', '.'] ∉ parts.filter Path.leads) :
    (disk.followAll location parts).bind disk.view.enter =
      disk.view.arrive location (parts.filter Path.leads) := by
  induction parts generalizing location with
  | nil => exact (View.arrive_nil disk.view location).symm
  | cons part rest ih =>
    rw [followAll_cons, follow_eq_view, View.follow]
    cases hleads : Path.leads part with
    | false =>
      have hstays : part = [] ∨ part = ['.'] := by
        simpa [Path.leads, Decidable.or_iff_not_imp_left] using hleads
      rw [List.filter_cons_of_neg (by simp [hleads])] at h ⊢
      rw [← View.enter_bind_arrive, ← ih location h]
      cases disk.view.enter location with
      | error fault => rfl
      | ok _ => simp [hstays, Except.bind]
    | true =>
      rw [List.filter_cons_of_pos hleads, List.mem_cons, not_or] at h
      rw [List.filter_cons_of_pos hleads, View.arrive_cons, ← ih _ h.2]
      simp only [Path.leads, bne_iff_ne, Bool.and_eq_true] at hleads
      cases disk.view.enter location with
      | error fault => rfl
      | ok _ =>
        simp only [hleads, Ne.symm h.1, or_self, ↓reduceIte, Except.bind]
        by_cases hlong : nameLimit < Text.byteLength part
        · simp [hlong, Nat.not_le_of_lt hlong]
        · simp only [hlong, ↓reduceIte, Nat.le_of_not_lt hlong]
          cases hnext : disk.view (location ++ [part]) with
          | none =>
            have hmissing : disk.view.arrive (location ++ [part]) (rest.filter Path.leads) =
                .error .notFound := View.arrive_of_missing hnext
            rw [← ih _ h.2] at hmissing
            exact hmissing.symm
          | some what => rfl

/-- Following parts that end in a name. -/
theorem followAll_concat {parts : List (List Char)} (h : ['.', '.'] ∉ parts.filter Path.leads)
    (hname : IsEntryName name) :
    disk.followAll location (parts ++ [name]) =
      (disk.view.reach location (parts.filter Path.leads ++ [name])).bind fun _ =>
        if (disk.view (location ++ parts.filter Path.leads ++ [name])).isSome then
          .ok (location ++ parts.filter Path.leads ++ [name])
        else .error .notFound := by
  rw [followAll_append, View.reach_concat, ← followAll_bind_enter disk location h]
  cases hfront : disk.followAll location parts with
  | error fault => rfl
  | ok reached =>
    obtain rfl := (followAll_eq_foldl hfront).trans (foldl_enter_leads location h)
    have hone : disk.followAll (location ++ parts.filter Path.leads) [name] =
        disk.view.follow (location ++ parts.filter Path.leads) name := by
      rw [followAll_cons, follow_eq_view]
      cases disk.view.follow (location ++ parts.filter Path.leads) name <;> rfl
    simp only [Except.bind]
    rw [hone, View.follow]
    cases disk.view.enter (location ++ parts.filter Path.leads) with
    | error fault => rfl
    | ok _ =>
      simp only [hname.1, hname.2.1, hname.2.2.1, or_self, ↓reduceIte]
      by_cases hlong : nameLimit < Text.byteLength name
      · simp [hlong, Nat.not_le_of_lt hlong]
      · simp [hlong, Nat.le_of_not_lt hlong]

/-- The names of a location up to the first that is too long. -/
def reachable (names : Location) : Location :=
  names.takeWhile fun name => Text.byteLength name ≤ nameLimit

theorem reachable_cons (name : Name) (rest : Location) :
    reachable (name :: rest) =
      if Text.byteLength name ≤ nameLimit then name :: reachable rest else [] := by
  rw [reachable, List.takeWhile_cons]
  split <;> simp_all [reachable]

theorem reachable_start (names : Location) : reachable names <+: names := List.takeWhile_prefix _

theorem reachable_concat (names : Location) (name : Name) :
    reachable (names ++ [name]) =
      if reachable names = names ∧ Text.byteLength name ≤ nameLimit then names ++ [name]
      else reachable names := by
  induction names with
  | nil =>
    rw [List.nil_append, reachable_cons]
    by_cases hshort : Text.byteLength name ≤ nameLimit <;> simp [hshort, reachable]
  | cons first rest ih =>
    rw [List.cons_append, reachable_cons, reachable_cons, ih]
    by_cases hshort : Text.byteLength first ≤ nameLimit
    · simp only [hshort, ↓reduceIte, List.cons.injEq, true_and]
      split <;> rfl
    · simp [hshort]

theorem reachable_start_concat (names : Location) (name : Name) :
    reachable names <+: reachable (names ++ [name]) := by
  rw [reachable_concat]
  split
  · exact (reachable_start names).trans (List.prefix_append names [name])
  · exact List.prefix_refl _

/-- Nothing is reached behind a name that is too long. -/
theorem reachable_concat_of_ne (h : reachable names ≠ names) (name : Name) :
    reachable (names ++ [name]) = reachable names ∧ reachable (names ++ [name]) ≠ names ++ [name] := by
  rw [reachable_concat, if_neg (not_and.mpr fun heq => absurd heq h)]
  refine ⟨rfl, fun heq => ?_⟩
  have hlength := (reachable_start names).length_le
  rw [heq, List.length_append, List.length_singleton] at hlength
  omega

theorem reachable_of_concat {front : Location} (h : front <+: reachable (names ++ [name]))
    (hne : front ≠ names ++ [name]) : front <+: reachable names := by
  rw [reachable_concat] at h
  split at h
  · rename_i hshort
    rw [hshort.1]
    exact (List.prefix_concat_iff.mp h).resolve_left hne
  · exact h

/-- Directories lead down to the first name that is too long. -/
theorem arrive_of_directory (h : disk.view (location ++ reachable names) = some none) :
    disk.view.arrive location names =
      if reachable names = names then .ok () else .error .nameTooLong := by
  induction names generalizing location with
  | nil =>
    rw [View.arrive_nil, View.enter_eq_ok_iff.mpr (by simpa [reachable] using h)]
    rfl
  | cons name rest ih =>
    have hthere : disk.view (location ++ reachable (name :: rest)) ≠ none := by simp [h]
    have hfirst : disk.view location = some none := by
      by_cases hnil : reachable (name :: rest) = []
      · simpa [hnil] using h
      · exact view_above hthere (List.prefix_append _ _) (by simpa using hnil)
    rw [View.arrive_cons, View.enter_eq_ok_iff.mpr hfirst, reachable_cons]
    rw [reachable_cons] at h
    by_cases hshort : Text.byteLength name ≤ nameLimit
    · simp only [hshort, ↓reduceIte] at h ⊢
      rw [← List.singleton_append, ← List.append_assoc] at h
      simpa [Except.bind] using ih h
    · simp [hshort, Except.bind]

theorem arrive_of_file {front : Location} (hfront : front <+: reachable names)
    (h : disk.view (location ++ front) = some (some contents)) :
    disk.view.arrive location names = .error .notADirectory := by
  induction names generalizing location front with
  | nil =>
    obtain rfl : front = [] := List.prefix_nil.mp hfront
    rw [View.arrive_nil, View.enter, ← List.append_nil location, h]
  | cons name rest ih =>
    cases front with
    | nil =>
      rw [List.append_nil] at h
      rw [View.arrive_cons, View.enter, h]
      rfl
    | cons first later =>
      have hthere : disk.view (location ++ first :: later) ≠ none := by simp [h]
      have hfirst : disk.view location = some none :=
        view_above hthere (List.prefix_append _ _) (by simp)
      rw [reachable_cons] at hfront
      split at hfront
      · rename_i hshort
        obtain ⟨rfl, hlater⟩ := List.cons_prefix_cons.mp hfront
        rw [View.arrive_cons, View.enter_eq_ok_iff.mpr hfirst]
        simp only [hshort, ↓reduceIte, Except.bind]
        exact ih hlater (by simpa using h)
      · simp at hfront

/-- Where there is no file in the way and nothing at the end, a directory is missing. -/
theorem arrive_of_nothing (h : disk.view (location ++ reachable names) = none)
    (hfree : ∀ front contents, front <+: reachable names →
      disk.view (location ++ front) ≠ some (some contents)) :
    disk.view.arrive location names = .error .notFound := by
  induction names generalizing location with
  | nil => exact View.arrive_of_missing (by simpa [reachable] using h)
  | cons name rest ih =>
    cases hfirst : disk.view location with
    | none => exact View.arrive_of_missing hfirst
    | some what =>
      cases what with
      | some contents => exact absurd hfirst (by simpa using hfree [] contents List.nil_prefix)
      | none =>
        rw [reachable_cons] at h hfree
        split at h
        · rename_i hshort
          rw [View.arrive_cons, View.enter_eq_ok_iff.mpr hfirst]
          simp only [hshort, ↓reduceIte, Except.bind] at hfree ⊢
          refine ih (by simpa using h) fun front contents hfront => ?_
          simpa using hfree (name :: front) contents (List.cons_prefix_cons.mpr ⟨rfl, hfront⟩)
        · simp [hfirst] at h

/-- Whether a path is refused by every operation that gets to the end of it. -/
def isRefused (path : Path) : Bool := isTooLong path || reachable path.names != path.names

/-- Whether an operation on a straight path gets to the end of it. -/
def access (disk : Disk) (path : Path) : Except DiskFault Unit :=
  if isTooLong path then .error .nameTooLong else disk.view.reach [] path.names

theorem slot_of_straight (disk : Disk) (h : path.IsStraight) (hend : path.EndsInName) :
    match disk.access path with
    | .error fault => disk.slot path = .error fault
    | .ok () => ∃ slot, disk.slot path = .ok slot ∧ slot.location = path.names ∧ slot.named ∧
        slot.slash = false := by
  obtain ⟨front, name, hparts, hname⟩ := hend
  have hnames := Path.names_of_parts hparts hname
  have hdown : ['.', '.'] ∉ front.filter Path.leads := fun hup =>
    h.down (hnames ▸ List.mem_append_left _ hup)
  have htrimmed : trimmedParts path = front ++ [name] := by
    simp [trimmedParts, hparts, hname.1]
  have hslash : (path.spelling.getLast? == some '/') = false := by
    obtain ⟨init, last, before, hpieces, hnot, hs, -⟩ :=
      Text.exists_pieces_eq_concat '/' path.spelling
    obtain rfl : last = name :=
      List.head_eq_of_cons_eq (List.append_inj' (hpieces.symm.trans hparts) rfl).2
    rw [hs, List.getLast?_append_of_ne_nil before hname.1, beq_eq_false_iff_ne]
    exact fun hlast => hnot (List.mem_of_getLast? hlast)
  rw [access, slot, if_neg h.spelling_ne_nil]
  cases hlong : isTooLong path with
  | true => rfl
  | false =>
    simp only [Bool.false_eq_true, ↓reduceIte, htrimmed, List.dropLast_concat,
      List.getLast?_concat, Option.getD_some, hslash, start, h.absolute]
    rw [hnames, View.reach_concat, ← followAll_bind_enter disk [] hdown]
    cases hfront : disk.followAll [] front with
    | error fault => rfl
    | ok reached =>
      obtain rfl := (followAll_eq_foldl hfront).trans (foldl_enter_leads [] hdown)
      simp only [Except.bind, List.nil_append, enter_view]
      cases disk.entriesAt (front.filter Path.leads) with
      | error fault => rfl
      | ok entries =>
        simp only [Except.map]
        by_cases hshort : nameLimit < Text.byteLength name
        · simp [hshort, Nat.not_le_of_lt hshort]
        · simp [hshort, Nat.le_of_not_lt hshort, Slot.location, Slot.named, hname.1, hname.2.1,
            hname.2.2.1]

/-- An operation on a path in a directory gets to the end of it unless it is refused. -/
theorem access_of_directory (hnames : path.names = names ++ [name])
    (hreachable : reachable names = names) (h : disk.view names = some none) :
    disk.access path = if isRefused path then .error .nameTooLong else .ok () := by
  have harrive : disk.view.arrive [] names = .ok () :=
    (arrive_of_directory (by rwa [hreachable])).trans (if_pos hreachable)
  rw [access, isRefused, hnames, View.reach_concat, harrive, reachable_concat]
  simp only [hreachable, true_and, Except.bind]
  cases isTooLong path with
  | true => rfl
  | false => by_cases hshort : Text.byteLength name ≤ nameLimit <;> simp [hshort]

theorem access_of_unreachable (hnames : path.names = names ++ [name])
    (hreachable : reachable names ≠ names) (h : disk.view (reachable names) = some none) :
    disk.access path = .error .nameTooLong := by
  have harrive : disk.view.arrive [] names = .error .nameTooLong :=
    (arrive_of_directory h).trans (if_neg hreachable)
  rw [access, hnames, View.reach_concat, harrive]
  exact ite_self _

/-- An operation on a path behind a file is refused. -/
theorem access_of_file {front : Location} (hlong : isTooLong path = false)
    (hnames : path.names = names ++ [name]) (hfront : front <+: reachable names)
    (h : disk.view front = some (some contents)) : disk.access path = .error .notADirectory := by
  have harrive : disk.view.arrive [] names = .error .notADirectory := arrive_of_file hfront h
  rw [access, if_neg (by simp [hlong]), hnames, View.reach_concat, harrive]
  rfl

theorem access_of_nothing (hlong : isTooLong path = false) (hnames : path.names = names ++ [name])
    (h : disk.view (reachable names) = none)
    (hfree : ∀ front contents, front <+: reachable names →
      disk.view front ≠ some (some contents)) : disk.access path = .error .notFound := by
  have harrive : disk.view.arrive [] names = .error .notFound :=
    arrive_of_nothing h (by simpa using hfree)
  rw [access, if_neg (by simp [hlong]), hnames, View.reach_concat, harrive]
  rfl

/-- Finding out where a straight path leads that ends in a name. -/
theorem locate_of_straight (h : path.IsStraight) (hend : path.EndsInName) :
    disk.locate path = (disk.view.reach [] path.names).bind fun _ =>
      if (disk.view path.names).isSome then .ok path.names else .error .notFound := by
  obtain ⟨front, name, hparts, hname⟩ := hend
  have hnames := Path.names_of_parts hparts hname
  have hdown : ['.', '.'] ∉ front.filter Path.leads := fun hup =>
    h.down (hnames ▸ List.mem_append_left _ hup)
  rw [locate, if_neg h.spelling_ne_nil, start, if_pos h.absolute, hparts, followAll_concat hdown hname,
    hnames, List.nil_append]

theorem isDirectory_iff (h : path.IsStraight) (hend : path.EndsInName) :
    disk.isDirectory path = true ↔
      disk.access path = .ok () ∧ disk.view path.names = some none := by
  rw [isDirectory, node, access]
  cases isTooLong path with
  | true => simp
  | false =>
    simp only [Bool.false_eq_true, ↓reduceIte, locate_of_straight h hend]
    cases disk.view.reach [] path.names with
    | error fault => simp [Except.bind]
    | ok _ =>
      rw [view, Node.held?]
      cases hat : disk.top.at? path.names with
      | none => simp [Except.bind]
      | some node => cases node <;> simp [Except.bind, hat, Node.isDirectory, Node.contents?]

private theorem file_of_contents? {present : Option Node}
    (h : some (some contents) = present.map Node.contents?) : present = some (.file contents) := by
  obtain ⟨node, rfl, hnode⟩ := Option.map_eq_some_iff.mp h.symm
  cases node with
  | file bytes => rw [Option.some.inj hnode]
  | directory entries => cases hnode

private theorem directory_of_contents? {present : Option Node}
    (h : some none = present.map Node.contents?) :
    ∃ entries, present = some (.directory entries) := by
  obtain ⟨node, rfl, hnode⟩ := Option.map_eq_some_iff.mp h.symm
  cases node with
  | file bytes => cases hnode
  | directory entries => exact ⟨entries, rfl⟩

/-- Reading a file by a straight path does not depend on anything but the file. -/
theorem read_of_straight (h : path.IsStraight) (hend : path.EndsInName)
    (hfile : disk.view path.names = some (some contents)) :
    disk.read path = if isRefused path then .error .nameTooLong else .ok contents := by
  obtain ⟨names, name, hnames⟩ := hend.exists_names
  have hlonger : ∀ front, front <+: names → front ≠ names ++ [name] := by
    rintro _ hfront rfl
    have hlength := hfront.length_le
    simp only [List.length_append, List.length_singleton] at hlength
    omega
  have hdirectory : ∀ front, front <+: names → disk.view front = some none := fun front hfront =>
    view_above (show disk.view path.names ≠ none by simp [hfile])
      (hfront.trans (hnames ▸ List.prefix_append names [name]))
      (hnames ▸ hlonger front hfront)
  have harrive : disk.view.arrive [] names =
      if reachable names = names then .ok () else .error .nameTooLong :=
    arrive_of_directory (hdirectory _ (reachable_start names))
  have hne := hlonger _ (reachable_start names)
  rw [hnames] at hfile
  rw [read_eq_view, locate_of_straight h hend, isRefused, hnames, hfile, View.reach_concat, harrive,
    reachable_concat]
  cases isTooLong path with
  | true => rfl
  | false =>
    by_cases hreachable : reachable names = names
    · by_cases hshort : Text.byteLength name ≤ nameLimit <;>
        simp [hreachable, hshort, Except.bind, hfile]
    · simp [hreachable, hne, Except.bind]

section Operations

variable (hordered : disk.top.Ordered) (h : path.IsStraight) (hend : path.EndsInName)

include h hend in
theorem makeDirectory_refused {fault : DiskFault} (haccess : disk.access path = .error fault) :
    disk.makeDirectory path = .error fault := by
  have hslot := slot_of_straight disk h hend
  rw [haccess] at hslot
  rw [makeDirectory, hslot]

include h hend in
theorem makeDirectory_there (haccess : disk.access path = .ok ())
    (hthere : disk.view path.names ≠ none) : disk.makeDirectory path = .error .alreadyThere := by
  have hslot := slot_of_straight disk h hend
  rw [haccess] at hslot
  obtain ⟨slot, hslot, hlocation, hnamed, -⟩ := hslot
  have hview := view_location_of_slot hslot
  rw [makeDirectory, hslot]
  cases hpresent : slot.present? with
  | none =>
    rw [hpresent, hlocation] at hview
    exact absurd hview hthere
  | some node => simp [hnamed, hpresent]

include hordered h hend in
theorem makeDirectory_missing (haccess : disk.access path = .ok ())
    (hmissing : disk.view path.names = none) :
    ∃ after, disk.makeDirectory path = .ok after ∧
      after.Shows disk.here (disk.view.set path.names (some none)) := by
  have hslot := slot_of_straight disk h hend
  rw [haccess] at hslot
  obtain ⟨slot, hslot, hlocation, hnamed, -⟩ := hslot
  have hview := view_location_of_slot hslot
  have hpresent : slot.present? = none := by simpa [hlocation, hmissing] using hview.symm
  have hmade : disk.makeDirectory path = .ok (disk.put slot (.directory .empty)) := by
    simp [makeDirectory, hslot, hnamed, hpresent]
  have hshows := (makeDirectory_ok hordered hmade).2
  rw [place_of_straight disk h] at hshows
  exact ⟨_, hmade, hshows⟩

include h hend in
theorem write_refused {fault : DiskFault} (haccess : disk.access path = .error fault) :
    disk.write path contents = .error fault := by
  have hslot := slot_of_straight disk h hend
  rw [haccess] at hslot
  rw [write_of_slot, hslot]

include h hend in
theorem write_directory (haccess : disk.access path = .ok ())
    (hdirectory : disk.view path.names = some none) :
    disk.write path contents = .error .isADirectory := by
  have hslot := slot_of_straight disk h hend
  rw [haccess] at hslot
  obtain ⟨slot, hslot, hlocation, hnamed, hslash⟩ := hslot
  have hview := view_location_of_slot hslot
  rw [hlocation, hdirectory] at hview
  obtain ⟨entries, hpresent⟩ := directory_of_contents? hview
  rw [write_of_slot, hslot]
  simp [hnamed, hslash, hpresent]

include hordered h hend in
theorem write_done (contents : Contents) (haccess : disk.access path = .ok ())
    (hnot : disk.view path.names ≠ some none) :
    ∃ after, disk.write path contents = .ok after ∧
      after.Shows disk.here (disk.view.set path.names (some (some contents))) := by
  have hslot := slot_of_straight disk h hend
  rw [haccess] at hslot
  obtain ⟨slot, hslot, hlocation, hnamed, hslash⟩ := hslot
  have hview := view_location_of_slot hslot
  rw [hlocation] at hview
  have hwritten : disk.write path contents = .ok (disk.put slot (.file contents)) := by
    rw [write_of_slot, hslot]
    cases hpresent : slot.present? with
    | none => simp [hnamed, hslash, hpresent]
    | some node =>
      cases node with
      | file bytes => simp [hnamed, hslash, hpresent]
      | directory entries => simp [hview, hpresent, Node.contents?] at hnot
  have hshows := (write_ok hordered hwritten).2
  rw [place_of_straight disk h] at hshows
  exact ⟨_, hwritten, hshows⟩

include hordered h hend in
theorem remove_done (haccess : disk.access path = .ok ())
    (hfile : disk.view path.names = some (some contents)) :
    ∃ after, disk.remove path = .ok after ∧
      after.Shows disk.here (disk.view.set path.names none) := by
  have hslot := slot_of_straight disk h hend
  rw [haccess] at hslot
  obtain ⟨slot, hslot, hlocation, hnamed, hslash⟩ := hslot
  have hview := view_location_of_slot hslot
  rw [hlocation, hfile] at hview
  have hremoved : disk.remove path = .ok (disk.clear slot) := by
    rw [remove, hslot]
    simp [hnamed, hslash, file_of_contents? hview]
  obtain ⟨-, -, hshows⟩ := remove_ok hordered hremoved
  rw [place_of_straight disk h] at hshows
  exact ⟨_, hremoved, hshows⟩

end Operations

section Rename

variable (hordered : disk.top.Ordered) (h : source.IsStraight) (hend : source.EndsInName)
  (haccess : disk.access source = .ok ()) (hfile : disk.view source.names = some (some contents))
  (h' : target.IsStraight) (hend' : target.EndsInName)

include h hend haccess h' hend' in
theorem rename_refused {fault : DiskFault} (hrefused : disk.access target = .error fault) :
    disk.rename source target = .error fault := by
  have hold := slot_of_straight disk h hend
  rw [haccess] at hold
  obtain ⟨old, hold, -⟩ := hold
  have hnew := slot_of_straight disk h' hend'
  rw [hrefused] at hnew
  rw [rename, hold, hnew]

include h hend haccess hfile h' hend' in
theorem rename_directory (haccess' : disk.access target = .ok ())
    (hdirectory : disk.view target.names = some none) :
    disk.rename source target = .error .isADirectory := by
  have hold := slot_of_straight disk h hend
  have hnew := slot_of_straight disk h' hend'
  rw [haccess] at hold
  rw [haccess'] at hnew
  obtain ⟨old, hold, hlocation, hnamed, hslash⟩ := hold
  obtain ⟨new, hnew, hlocation', hnamed', hslash'⟩ := hnew
  have hview := view_location_of_slot hold
  have hview' := view_location_of_slot hnew
  rw [hlocation, hfile] at hview
  rw [hlocation', hdirectory] at hview'
  obtain ⟨entries, hentries⟩ := directory_of_contents? hview'
  rw [rename, hold, hnew]
  simp [hnamed, hnamed', hslash, hslash', file_of_contents? hview, hentries]

include hordered h hend haccess hfile h' hend' in
theorem rename_done (haccess' : disk.access target = .ok ())
    (hnot : disk.view target.names ≠ some none) :
    ∃ after, disk.rename source target = .ok after ∧
      after.Shows disk.here
        ((disk.view.set source.names none).set target.names (some (some contents))) := by
  have hold := slot_of_straight disk h hend
  have hnew := slot_of_straight disk h' hend'
  rw [haccess] at hold
  rw [haccess'] at hnew
  obtain ⟨old, hold, hlocation, hnamed, hslash⟩ := hold
  obtain ⟨new, hnew, hlocation', hnamed', hslash'⟩ := hnew
  have hview := view_location_of_slot hold
  have hview' := view_location_of_slot hnew
  rw [hlocation, hfile] at hview
  rw [hlocation'] at hview'
  rw [hview'] at hnot
  have hmoved : ∃ after, disk.rename source target = .ok after := by
    have hbytes := file_of_contents? hview
    rw [rename, hold, hnew]
    cases hpresent : new.present? with
    | none => simp [hnamed, hnamed', hslash, hslash', hbytes, hpresent]
    | some node =>
      cases node with
      | file old => simp [hnamed, hnamed', hslash, hslash', hbytes, hpresent]
      | directory entries => simp [hpresent, Node.contents?] at hnot
  obtain ⟨after, hmoved⟩ := hmoved
  obtain ⟨bytes, hbytes, -, hshows⟩ := rename_ok hordered hmoved
  rw [place_of_straight disk h, hfile] at hbytes
  obtain rfl : contents = bytes := by simpa using hbytes
  rw [place_of_straight disk h, place_of_straight disk h'] at hshows
  exact ⟨after, hmoved, hshows⟩

end Rename

end Disk

end BehaviorRegistrar
