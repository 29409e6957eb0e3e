import BehaviorRegistrar.Proofs.Build.Preservation

/-!
# Output directories inside the root

The walk leaves out the output directory by its spelling. So when the output directory lies below the
root, what it holds is no source if it is spelled as the walk comes to it, by the components of the
root and the names that follow. Spelled in any other way it is walked through like every directory,
and a build takes the outputs of the build before it for sources.
-/

namespace BehaviorRegistrar.Command.Build

variable {root outDir file : Path} {disk : Disk} {location names : Location} {node : Node}

/-- Whether no directory below a root has a path too long for the walk. -/
def IsOpen (disk : Disk) (root : Path) : Prop :=
  ∀ names, disk.view (disk.place root ++ names) = some none →
    Disk.isTooLong (root.descend names) = false

/-- Whether a walk from a root comes past no path with the components of the output directory. -/
def IsUnskipped (root outDir : Path) : Prop :=
  ∀ front, (∀ name ∈ front, IsEntryName name) → ¬ (root.descend front).same outDir

theorem isUnskipped_of_place (hout : disk.place outDir = disk.place root ++ names)
    (hnot : ¬ (root.descend names).same outDir) : IsUnskipped root outDir := by
  intro front hfront hsame
  have hplace := Disk.place_eq_of_same disk hsame
  rw [Disk.place_descend disk root hfront, hout] at hplace
  rw [List.append_cancel_left hplace] at hsame
  exact hnot hsame

/-- Whether names lead from a root past no path with the components of the output directory. -/
def IsKept (root outDir : Path) (names : Location) : Prop :=
  ∀ front, front <+: names → ¬ (root.descend front).same outDir

/-- Whether every directory that a search comes to has a path that can be opened. -/
def IsPassable (disk : Disk) (root outDir : Path) : Prop :=
  ∀ names, disk.view (disk.place root ++ names) = some none → IsKept root outDir names →
    Disk.isTooLong (root.descend names) = false

/-- A search succeeds when it can open every directory that it comes to. -/
theorem find?_isClosed_eq_none_iff (hordered : disk.top.Ordered) (hnode : disk.node root = .ok node) :
    (node.walk (fun path => path.same outDir) root).find? isClosed = none ↔
      IsPassable disk root outDir := by
  have hbelow := ordered_of_node hordered hnode
  rw [List.find?_eq_none]
  constructor
  · intro hnone names hview hkept
    rw [view_below_root hnode] at hview
    obtain ⟨entries, hat⟩ := Node.held?_eq_directory.mp hview
    simpa [isClosed, Node.isDirectory] using hnone _ (Node.mem_walk hat hkept)
  · intro hpassable visited hvisited hclosed
    obtain ⟨names, -, hpath, hat, hkept⟩ := Node.exists_of_mem_walk hbelow hvisited
    simp only [isClosed, Bool.and_eq_true] at hclosed
    have hview : disk.view (disk.place root ++ names) = some none := by
      rw [view_below_root hnode, Node.held?, hat]
      cases hfound : visited.2 with
      | file contents =>
        rw [hfound] at hclosed
        cases hclosed.1
      | directory entries => rfl
    rw [hpath, hpassable names hview hkept] at hclosed
    cases hclosed.2

theorem isOpen_iff_isPassable (hordered : disk.top.Ordered) (hnode : disk.node root = .ok node)
    (hskip : IsUnskipped root outDir) : IsOpen disk root ↔ IsPassable disk root outDir := by
  constructor
  · intro hopen names hview _
    exact hopen names hview
  · intro hpassable names hview
    refine hpassable names hview fun front hfront => hskip front fun name hname => ?_
    rw [view_below_root hnode] at hview
    obtain ⟨entries, hat⟩ := Node.held?_eq_directory.mp hview
    exact Node.isEntryName_of_at? (ordered_of_node hordered hnode) hat name (hfront.subset hname)

theorem mem_found_of_isUnskipped (hordered : disk.top.Ordered) (hnode : disk.node root = .ok node)
    (hskip : IsUnskipped root outDir) :
    file ∈ found root outDir disk ↔ IsOpen disk root ∧ file ∈ node.behaviorFiles root outDir := by
  rw [isOpen_iff_isPassable hordered hnode hskip, ← find?_isClosed_eq_none_iff hordered hnode, found,
    hnode]
  dsimp only
  rw [Node.findBehaviorFiles]
  cases (node.walk (fun path => path.same outDir) root).find? isClosed <;> simp

theorem exists_node_of_isOpen (hroot : disk.locate root = .ok (disk.place root))
    (hdirectory : disk.view (disk.place root ++ names) = some none) (hopen : IsOpen disk root) :
    ∃ entries, disk.node root = .ok (.directory entries) := by
  have hview : disk.view (disk.place root) = some none := by
    by_cases hempty : names = []
    · simpa [hempty] using hdirectory
    · apply Disk.view_above (by simp [hdirectory]) (List.prefix_append _ names)
      simpa using hempty
  have hshort : Disk.isTooLong root = false := hopen [] (by simpa using hview)
  obtain ⟨entries, -, hat⟩ := Disk.entriesAt_of_view hview
  refine ⟨entries, ?_⟩
  rw [Disk.node, hshort, hroot]
  simp [hat]

theorem behaviorFile_of_mem_found (hordered : disk.top.Ordered)
    (hout : disk.place outDir = disk.place root ++ names)
    (hdirectory : disk.view (disk.place root ++ names) = some none)
    (hfile : file ∈ found root outDir disk) (hbelow : disk.place root ++ names <+: disk.place file) :
    ¬ (root.descend names).same outDir ∧ IsOpen disk root ∧
      ∃ below name contents,
        disk.view (disk.place root ++ names ++ below ++ [name]) = some (some contents) ∧
          ModuleId.isBehavior name := by
  obtain ⟨node, hnode, hfound⟩ := exists_node_of_mem_found hfile
  obtain ⟨path, contents, hpath, rfl, hat, hbehavior, hskip⟩ :=
    Node.exists_of_mem_behaviorFiles (ordered_of_node hordered hnode) (hfound ▸ hfile)
  rw [Disk.place_descend disk root hpath, List.prefix_append_right_inj] at hbelow
  have hnot : ¬ (root.descend names).same outDir := hskip names hbelow
  have hunskipped := isUnskipped_of_place hout hnot
  have hview : disk.view (disk.place root ++ path) = some (some contents) := by
    rw [view_below_root hnode]
    exact Node.held?_eq_file.mpr hat
  refine ⟨hnot, ((mem_found_of_isUnskipped hordered hnode hunskipped).mp hfile).1, ?_⟩
  obtain ⟨rest, rfl⟩ := hbelow
  rcases List.eq_nil_or_concat rest with rfl | ⟨below, name, rfl⟩
  · rw [List.append_nil, hdirectory] at hview
    cases hview
  · rw [List.concat_eq_append] at hpath hbehavior hview
    have hname : IsEntryName name := hpath name (by simp)
    rw [← List.append_assoc, Path.fileName?_descend_concat root _ hname, Option.getD_some] at hbehavior
    exact ⟨below, name, contents, by simpa using hview, hbehavior⟩

/-- A search that skips nothing finds the behavior files at all locations. -/
theorem mem_found_of_view (hordered : disk.top.Ordered) (hnode : disk.node root = .ok node)
    (hskip : IsUnskipped root outDir) (hopen : IsOpen disk root) {front : Location} {name : Name}
    {contents : Contents}
    (hview : disk.view (disk.place root ++ (front ++ [name])) = some (some contents))
    (hbehavior : ModuleId.isBehavior name) :
    root.descend (front ++ [name]) ∈ found root outDir disk ∧
      disk.place (root.descend (front ++ [name])) = disk.place root ++ (front ++ [name]) := by
  rw [view_below_root hnode, Node.held?_eq_file] at hview
  have hpath := Node.isEntryName_of_at? (ordered_of_node hordered hnode) hview
  refine ⟨(mem_found_of_isUnskipped hordered hnode hskip).mpr ⟨hopen, ?_⟩,
    Disk.place_descend disk root hpath⟩
  apply Node.mem_behaviorFiles hview
  · rwa [Path.fileName?_descend_concat root _ (hpath name (by simp)), Option.getD_some]
  · intro first hfirst
    exact hskip first fun other hother => hpath other (hfirst.subset hother)

/-- When an output directory leads to a directory below the root, the search finds a file in it exactly
if the output directory is not spelled as the walk comes to it, the walk can open every directory, and
there is a behavior file in it. -/
theorem exists_found_below_iff (hordered : disk.top.Ordered)
    (hroot : (disk.locate root).toOption = some location)
    (hout : (disk.locate outDir).toOption = some (location ++ names))
    (hdirectory : disk.view (location ++ names) = some none) :
    (∃ file ∈ found root outDir disk, location ++ names <+: disk.place file) ↔
      ¬ (root.descend names).same outDir ∧ IsOpen disk root ∧
        ∃ below name contents,
          disk.view (location ++ names ++ below ++ [name]) = some (some contents) ∧
            ModuleId.isBehavior name := by
  have hlocate := eq_ok_of_toOption hroot
  obtain rfl := Disk.locate_eq_place hlocate
  have hplace := (Disk.locate_eq_place (eq_ok_of_toOption hout)).symm
  constructor
  · rintro ⟨file, hfile, hbelow⟩
    exact behaviorFile_of_mem_found hordered hplace hdirectory hfile hbelow
  · rintro ⟨hnot, hopen, below, name, contents, hview, hbehavior⟩
    obtain ⟨entries, hnode⟩ := exists_node_of_isOpen hlocate hdirectory hopen
    rw [List.append_assoc, List.append_assoc, ← List.append_assoc names] at hview
    obtain ⟨hfound, hwhere⟩ := mem_found_of_view hordered hnode (isUnskipped_of_place hplace hnot)
      hopen hview hbehavior
    refine ⟨_, hfound, ?_⟩
    rw [hwhere, ← List.append_assoc, ← List.append_assoc]
    exact (List.prefix_append _ below).trans (List.prefix_append _ [name])

namespace Job

theorem ordered_run (job : Job) (json : Bool) (hordered : disk.top.Ordered) :
    (job.run json disk).2.top.Ordered := by
  rw [run_disk, modules]
  split
  · exact hordered
  · exact (job.growth_steps (job.sources disk) disk hordered).ordered

def nested (outDir : String) : Job := ⟨1, .ofString "/", .ofString "/src", .ofString outDir, ⟨false⟩⟩

/-- Spelled plainly, `src/dist` is left out of the next build. -/
theorem not_found_below_nested :
    let job := nested "/src/dist"
    let disk := (job.run false menuDisk).2
    let dist : Location := ["src".toList, "dist".toList]
    disk.top.Ordered ∧ (disk.locate job.root).toOption = some ["src".toList] ∧
      (disk.locate job.outDir).toOption = some dist ∧ disk.view dist = some none ∧
        disk.view (dist ++ ["menu.behavior.js".toList]) ≠ none ∧
          ¬ ∃ file ∈ job.sources disk, dist <+: disk.place file := by
  intro job disk dist
  have hordered : disk.top.Ordered := job.ordered_run false ordered_menuDisk
  have hroot : (disk.locate job.root).toOption = some ["src".toList] := by decide +kernel
  have hout : (disk.locate job.outDir).toOption = some (["src".toList] ++ ["dist".toList]) := by
    decide +kernel
  have hdirectory : disk.view (["src".toList] ++ ["dist".toList]) = some none := by decide +kernel
  refine ⟨hordered, hroot, hout, hdirectory, by decide +kernel, fun hfound => ?_⟩
  have hsame : (job.root.descend ["dist".toList]).same job.outDir := by decide
  exact ((exists_found_below_iff hordered hroot hout hdirectory).mp hfound).1 hsame

/-- Spelled through a detour, the same directory is walked through: the next build takes the output
that is there for a source. -/
theorem found_below_nested :
    let job := nested "/src/../src/dist"
    let disk := (job.run false menuDisk).2
    let dist : Location := ["src".toList, "dist".toList]
    disk.top.Ordered ∧ (disk.locate job.root).toOption = some ["src".toList] ∧
      (disk.locate job.outDir).toOption = some dist ∧ disk.view dist = some none ∧ dist ≠ ["src".toList] ∧
        ∃ file ∈ job.sources disk, dist <+: disk.place file := by
  intro job disk dist
  refine ⟨job.ordered_run false ordered_menuDisk, ?_, ?_, ?_, ?_,
    .ofString "/src/dist/menu.behavior.js", ?_, ?_⟩ <;> decide +kernel

end Job

end BehaviorRegistrar.Command.Build
