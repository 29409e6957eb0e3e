import BehaviorRegistrar.Proofs.Disk.Patches
import BehaviorRegistrar.Proofs.Disk.Reaching
import BehaviorRegistrar.Proofs.Writing

/-!
# What making directories comes to

Whether the directories of a straight path can be made depends on the files on the way alone. When
there is none, all directories up to the first name that is too long are there afterwards, and
nothing else is changed.
-/

namespace BehaviorRegistrar.Output

open OnDisk Disk

variable {disk : Disk} {path : Path} {names : Location} {name : Name} {contents : Contents}
  {fault : DiskFault}

theorem makeDirectories_eq_makeOne (hspelling : path.spelling ≠ [])
    (h : disk.makeDirectory path ≠ .error .notFound) :
    (makeDirectories path : OnDisk (Except DiskFault Unit)) disk = makeOne path disk := by
  rw [makeDirectories_apply hspelling]
  split
  · contradiction
  · rfl

theorem makeOne_of_access (h : path.IsStraight) (hend : path.EndsInName)
    (haccess : disk.access path = .error fault) : makeOne path disk = (.error fault, disk) := by
  have hdirectory : disk.isDirectory path = false := by
    rw [← Bool.not_eq_true, isDirectory_iff h hend, haccess]
    simp
  rw [makeOne, makeDirectory_refused h hend haccess, hdirectory]
  rfl

/-- What refuses every operation on a path refuses its directories too, unless something is missing
on the way. -/
theorem makeDirectories_of_access (h : path.IsStraight) (hend : path.EndsInName)
    (haccess : disk.access path = .error fault) (hfault : fault ≠ .notFound) :
    (makeDirectories path : OnDisk (Except DiskFault Unit)) disk = (.error fault, disk) := by
  have hmake := makeDirectory_refused h hend haccess
  rw [makeDirectories_eq_makeOne h.spelling_ne_nil (by simpa [hmake] using hfault),
    makeOne_of_access h hend haccess]

theorem makeDirectories_of_tooLong (h : path.IsStraight)
    (hend : path.spelling = ['/'] ∨ path.EndsInName) (hlong : isTooLong path = true) :
    (makeDirectories path : OnDisk (Except DiskFault Unit)) disk = (.error .nameTooLong, disk) := by
  obtain hroot | hend := hend
  · obtain rfl : path = ⟨['/']⟩ := by rw [← hroot]
    exact absurd hlong (by decide)
  · exact makeDirectories_of_access h hend (if_pos hlong) (by simp)

theorem makeDirectories_of_file (h : path.IsStraight) (hend : path.EndsInName)
    (hlong : isTooLong path = false) (hreachable : reachable path.names = path.names)
    (hfile : disk.view path.names = some (some contents)) :
    (makeDirectories path : OnDisk (Except DiskFault Unit)) disk = (.error .alreadyThere, disk) := by
  obtain ⟨names, name, hnames⟩ := hend.exists_names
  have habove : disk.view names = some none :=
    view_above (show disk.view path.names ≠ none by simp [hfile]) (by simp [hnames]) (by simp [hnames])
  have hshort : reachable names = names :=
    Decidable.byContradiction fun hne => (reachable_concat_of_ne hne name).2 (hnames ▸ hreachable)
  have haccess : disk.access path = .ok () := by
    rw [access_of_directory hnames hshort habove, isRefused, hlong, hreachable]
    simp
  have hmake := makeDirectory_there h hend haccess (by simp [hfile])
  have hdirectory : disk.isDirectory path = false := by
    rw [← Bool.not_eq_true, isDirectory_iff h hend, hfile]
    simp
  rw [makeDirectories_eq_makeOne h.spelling_ne_nil (by simp [hmake]), makeOne, hmake, hdirectory]
  rfl

/-- A file on the way or at the end refuses the directories, and nothing is changed. -/
theorem makeDirectories_of_blocked (h : path.IsStraight) (hend : path.EndsInName)
    (hlong : isTooLong path = false) (hblocked : disk.view.isBlocked (reachable path.names) = true) :
    (makeDirectories path : OnDisk (Except DiskFault Unit)) disk =
      (.error (if (disk.view path.names).join.isSome then .alreadyThere else .notADirectory),
        disk) := by
  obtain ⟨front, contents, hfront, hfile⟩ := View.isBlocked_iff.mp hblocked
  by_cases hlast : front = path.names
  · subst hlast
    have hreachable := (reachable_start path.names).eq_of_length_le hfront.length_le
    rw [makeDirectories_of_file h hend hlong hreachable hfile, hfile]
    rfl
  · have hbehind : disk.view path.names = none :=
      view_behind (by simp [hfile]) (hfront.trans (reachable_start _)) hlast
    obtain ⟨names, name, hnames⟩ := hend.exists_names
    rw [hnames] at hfront hlast
    have haccess := access_of_file hlong hnames (reachable_of_concat hfront hlast) hfile
    rw [makeDirectories_of_access h hend haccess (by simp), hbehind]
    rfl

private theorem makeDirectories_root (htop : disk.view [] = some none) :
    (makeDirectories ⟨['/']⟩ : OnDisk (Except DiskFault Unit)) disk = (.ok (), disk) := by
  obtain ⟨entries, hentries, hat⟩ := entriesAt_of_view htop
  have hparts : (⟨['/']⟩ : Path).parts = [[], []] := by decide
  have htrimmed : trimmedParts ⟨['/']⟩ = [] := by decide
  have hlong : isTooLong ⟨['/']⟩ = false := by decide
  have hstart : disk.start ⟨['/']⟩ = [] := rfl
  have hslot : disk.slot ⟨['/']⟩ = .ok ⟨[], entries, [], true⟩ := by
    simp [slot, hlong, htrimmed, hstart, followAll, hentries, pure, Except.pure, Text.byteLength]
  have hmake : disk.makeDirectory ⟨['/']⟩ = .error .alreadyThere := by
    rw [makeDirectory, hslot]
    rfl
  have hlocate : disk.locate ⟨['/']⟩ = .ok [] := by
    simp [locate, hstart, hparts, followAll, List.foldlM, follow, hentries, pure, Except.pure, bind,
      Except.bind]
  have hdirectory : disk.isDirectory ⟨['/']⟩ = true := by
    simp [Disk.isDirectory, node, hlong, hlocate, hat, Node.isDirectory]
  rw [makeDirectories_eq_makeOne (List.cons_ne_nil _ _) (by simp [hmake]), makeOne, hmake, hdirectory]
  rfl

section Free

variable (hordered : disk.top.Ordered) (h : path.IsStraight) (hend : path.EndsInName)
  (hlong : isTooLong path = false) (hnames : path.names = names ++ [name])
  (hfree : disk.view.isBlocked (reachable path.names) = false)

include hordered h hend hlong hnames hfree in
private theorem makeOne_in (hreachable : reachable names = names)
    (habove : disk.view names = some none) :
    disk.makeDirectory path ≠ .error .notFound ∧
      ∃ after, makeOne path disk =
          (if reachable path.names = path.names then .ok () else .error .nameTooLong, after) ∧
        after.Shows disk.here (disk.view.made (reachable path.names)) := by
  have haccess := access_of_directory hnames hreachable habove
  rw [isRefused, hlong, Bool.false_or] at haccess
  by_cases hshort : reachable path.names = path.names
  · have haccess : disk.access path = .ok () := by simpa [hshort] using haccess
    cases hview : disk.view path.names with
    | none =>
      obtain ⟨after, hafter, hshows⟩ := makeDirectory_missing hordered h hend haccess hview
      refine ⟨by simp [hafter], after, by rw [makeOne, hafter, if_pos hshort], ?_⟩
      rwa [hshort, hnames, ← View.made_concat, made_eq_view habove, ← hnames]
    | some what =>
      cases what with
      | some contents =>
        have hblocked : disk.view.isBlocked (reachable path.names) = true :=
          View.isBlocked_iff.mpr ⟨path.names, contents, by rw [hshort], hview⟩
        rw [hfree] at hblocked
        cases hblocked
      | none =>
        have hmake := makeDirectory_there h hend haccess (by simp [hview])
        refine ⟨by simp [hmake], disk, ?_, rfl, hordered, by rw [hshort, made_eq_view hview]⟩
        rw [makeOne, hmake, (isDirectory_iff h hend).mpr ⟨haccess, hview⟩, if_pos hshort]
        rfl
  · have haccess : disk.access path = .error .nameTooLong := by simpa [hshort] using haccess
    have hlast : reachable path.names = names := by
      rw [hnames, reachable_concat] at hshort ⊢
      split
      · rename_i hall
        exact absurd (if_pos hall) hshort
      · exact hreachable
    refine ⟨by simp [makeDirectory_refused h hend haccess], disk, ?_, rfl, hordered, ?_⟩
    · rw [makeOne_of_access h hend haccess, if_neg hshort]
    · rw [hlast, made_eq_view habove]

include h hend hlong hnames hfree in
private theorem makeDirectories_below {parent : Path} {made : Disk}
    (hparent : path.parent? = some parent) (hmissing : disk.makeDirectory path = .error .notFound)
    (hmade : (makeDirectories parent : OnDisk (Except DiskFault Unit)) disk =
      (if reachable names = names then .ok () else .error .nameTooLong, made))
    (hshows : made.Shows disk.here (disk.view.made (reachable names))) :
    ∃ after, (makeDirectories path : OnDisk (Except DiskFault Unit)) disk =
        (if reachable path.names = path.names then .ok () else .error .nameTooLong, after) ∧
      after.Shows disk.here (disk.view.made (reachable path.names)) := by
  rw [makeDirectories_apply h.spelling_ne_nil, hmissing, hparent]
  dsimp only
  rw [hmade]
  by_cases hreachable : reachable names = names
  · have hsub := reachable_start_concat names name
    rw [hreachable, ← hnames] at hsub
    rw [hreachable] at hshows
    have habove : made.view names = some none := by
      rw [hshows.view, View.made, if_pos (List.prefix_refl _)]
    have hmadeFree : made.view.isBlocked (reachable path.names) = false := by
      rw [hshows.view]
      exact View.isBlocked_made hfree
    obtain ⟨-, after, hone, hshows'⟩ :=
      makeOne_in hshows.ordered h hend hlong hnames hmadeFree hreachable habove
    rw [hshows.here, hshows.view, View.made_made _ hsub] at hshows'
    rw [if_pos hreachable]
    exact ⟨after, hone, hshows'⟩
  · obtain ⟨hsame, hne⟩ := reachable_concat_of_ne hreachable name
    rw [if_neg hreachable, hnames, if_neg hne, hsame]
    exact ⟨made, rfl, hshows⟩

end Free

/-- Where no file is in the way, all directories up to the first name that is too long are made. -/
theorem makeDirectories_of_free {path : Path} (hordered : disk.top.Ordered)
    (htop : disk.view [] = some none) (h : path.IsStraight)
    (hend : path.spelling = ['/'] ∨ path.EndsInName) (hlong : isTooLong path = false)
    (hfree : disk.view.isBlocked (reachable path.names) = false) :
    ∃ after, (makeDirectories path : OnDisk (Except DiskFault Unit)) disk =
        (if reachable path.names = path.names then .ok () else .error .nameTooLong, after) ∧
      after.Shows disk.here (disk.view.made (reachable path.names)) := by
  obtain hroot | hend := hend
  · obtain rfl : path = ⟨['/']⟩ := by rw [← hroot]
    have hnames : (⟨['/']⟩ : Path).names = [] := by decide
    have hreachable : reachable (⟨['/']⟩ : Path).names = (⟨['/']⟩ : Path).names := by decide
    rw [makeDirectories_root htop, if_pos hreachable]
    exact ⟨disk, rfl, rfl, hordered, by rw [hreachable, hnames, made_eq_view htop]⟩
  · obtain ⟨names, name, hnames⟩ := hend.exists_names
    have hfile : ∀ front contents, front <+: reachable names →
        disk.view front ≠ some (some contents) := fun front contents hfront hview => by
      have hsub := hfront.trans (reachable_start_concat names name)
      rw [View.isBlocked_iff.mpr ⟨front, contents, hnames ▸ hsub, hview⟩] at hfree
      cases hfree
    cases habove : disk.view (reachable names) with
    | some what =>
      cases what with
      | some contents => exact absurd habove (hfile _ contents (List.prefix_refl _))
      | none =>
        by_cases hreachable : reachable names = names
        · rw [hreachable] at habove
          obtain ⟨hfound, hone⟩ := makeOne_in hordered h hend hlong hnames hfree hreachable habove
          rwa [makeDirectories_eq_makeOne h.spelling_ne_nil hfound]
        · obtain ⟨hsame, hne⟩ := reachable_concat_of_ne hreachable name
          have haccess := access_of_unreachable hnames hreachable habove
          rw [makeDirectories_of_access h hend haccess (by simp), hnames, if_neg hne, hsame]
          exact ⟨disk, rfl, rfl, hordered, (made_eq_view habove).symm⟩
    | none =>
      have haccess := access_of_nothing hlong hnames habove hfile
      obtain ⟨parent, hparent, hstraight, hparentEnd, hparentNames, hstart⟩ :=
        Path.exists_parent_of_straight h hend
      rw [hnames, List.dropLast_concat] at hparentNames
      have hparentFree : disk.view.isBlocked (reachable parent.names) = false := by
        rw [← Bool.not_eq_true, View.isBlocked_iff, hparentNames]
        rintro ⟨front, contents, hfront, hview⟩
        exact hfile front contents hfront hview
      obtain ⟨made, hmade, hshows⟩ := makeDirectories_of_free hordered htop hstraight hparentEnd
        (isTooLong_of_start hstart hlong) hparentFree
      rw [hparentNames] at hmade hshows
      exact makeDirectories_below h hend hlong hnames hfree hparent
        (makeDirectory_refused h hend haccess) hmade hshows
termination_by path.spelling.length
decreasing_by exact Path.length_lt_of_parent? (by assumption)

/-- Making the directories of a path comes to one of three things. -/
theorem makeDirectories_cases (hordered : disk.top.Ordered)
    (htop : disk.view [] = some none) (h : path.IsStraight)
    (hend : path.spelling = ['/'] ∨ path.EndsInName) :
    (isTooLong path = true ∧
      (makeDirectories path : OnDisk (Except DiskFault Unit)) disk = (.error .nameTooLong, disk)) ∨
    (isTooLong path = false ∧ disk.view.isBlocked (reachable path.names) = true ∧
      (makeDirectories path : OnDisk (Except DiskFault Unit)) disk =
        (.error (if (disk.view path.names).join.isSome then .alreadyThere else .notADirectory),
          disk)) ∨
    (isTooLong path = false ∧ disk.view.isBlocked (reachable path.names) = false ∧
      ∃ made, (makeDirectories path : OnDisk (Except DiskFault Unit)) disk =
          (if reachable path.names = path.names then .ok () else .error .nameTooLong, made) ∧
        made.Shows disk.here (disk.view.made (reachable path.names))) := by
  cases hlong : isTooLong path with
  | true => exact .inl ⟨rfl, makeDirectories_of_tooLong h hend hlong⟩
  | false =>
    cases hblocked : disk.view.isBlocked (reachable path.names) with
    | false =>
      exact .inr (.inr ⟨rfl, rfl, makeDirectories_of_free hordered htop h hend hlong hblocked⟩)
    | true =>
      refine .inr (.inl ⟨rfl, rfl, ?_⟩)
      obtain hroot | hend := hend
      · obtain rfl : path = ⟨['/']⟩ := by rw [← hroot]
        obtain ⟨front, contents, hfront, hfile⟩ := View.isBlocked_iff.mp hblocked
        have hreachable : reachable (⟨['/']⟩ : Path).names = [] := by decide
        rw [hreachable] at hfront
        rw [List.prefix_nil.mp hfront, htop] at hfile
        cases hfile
      · exact makeDirectories_of_blocked h hend hlong hblocked

end BehaviorRegistrar.Output
