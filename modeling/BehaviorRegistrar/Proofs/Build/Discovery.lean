import BehaviorRegistrar.Proofs.Build.Nesting

/-!
# What the search of a build finds

The search of an existing root fails only when the path of the root, or of a directory that it comes
to, is too long to be opened. Otherwise it finds the files at or below the root that go by the name of
a behavior file, without those at or below a path with the components of the output directory, in the
order of their components and each of them once.
-/

namespace BehaviorRegistrar.Command.Build

variable {root outDir file : Path} {disk : Disk} {location names : Location} {node : Node}

/-- Whether a path is that of a behavior file at or below a root that is to be built. -/
def IsSought (disk : Disk) (root outDir file : Path) : Prop :=
  ∃ names contents front name, file = root.descend names ∧
    disk.view (disk.place root ++ names) = some (some contents) ∧
      disk.place root ++ names = front ++ [name] ∧ ModuleId.isBehavior name ∧
        IsKept root outDir names

theorem exists_node_iff (hroot : disk.locate root = .ok location) :
    (∃ node, disk.node root = .ok node) ↔ Disk.isTooLong root = false := by
  rw [Disk.node, hroot]
  cases Disk.isTooLong root with
  | true => simp
  | false =>
    have hview := Disk.view_of_locate hroot
    rw [Disk.view, Node.held?] at hview
    cases hat : disk.top.at? location with
    | none => simp [hat] at hview
    | some node => simp [hat]

theorem mem_behaviorFiles_iff (hordered : disk.top.Ordered) (hnode : disk.node root = .ok node) :
    file ∈ node.behaviorFiles root outDir ↔ IsSought disk root outDir file := by
  have hbelow := ordered_of_node hordered hnode
  have hlast : ∀ {names contents}, (∀ name ∈ names, IsEntryName name) →
      node.at? names = some (.file contents) → ∃ front name,
        (root.descend names).fileName? = some name ∧ disk.place root ++ names = front ++ [name] := by
    intro names contents hnames hat
    obtain ⟨front, above, name, hspelling, hfront, hname, hplace⟩ :=
      exists_spelling_of_file hnode hnames hat
    rw [Disk.place_descend disk root hnames] at hplace
    exact ⟨above, name, (ModuleId.isBehaviorFile_of_spelling hspelling hfront hname).1, hplace⟩
  constructor
  · intro h
    obtain ⟨names, contents, hnames, hfile, hat, hbehavior, hkept⟩ :=
      Node.exists_of_mem_behaviorFiles hbelow h
    obtain ⟨front, name, hfileName, hplace⟩ := hlast hnames hat
    rw [hfile, hfileName, Option.getD_some] at hbehavior
    refine ⟨names, contents, front, name, hfile, ?_, hplace, hbehavior, hkept⟩
    rw [view_below_root hnode, Node.held?_eq_file]
    exact hat
  · rintro ⟨names, contents, front, name, rfl, hview, hplace, hbehavior, hkept⟩
    rw [view_below_root hnode, Node.held?_eq_file] at hview
    obtain ⟨above, other, hfileName, hother⟩ := hlast (Node.isEntryName_of_at? hbelow hview) hview
    obtain rfl : name = other :=
      List.head_eq_of_cons_eq (List.append_inj' (hplace.symm.trans hother) rfl).2
    refine Node.mem_behaviorFiles hview ?_ hkept
    rwa [hfileName, Option.getD_some]

namespace Job

variable {job : Job} {files : List Path}

theorem search_of_node (hnode : disk.node job.root = .ok node) :
    job.search disk = node.findBehaviorFiles job.root job.outDir := by
  rw [search, hnode]
  rfl

theorem search_eq_ok_iff :
    job.search disk = .ok files ↔
      ∃ node, disk.node job.root = .ok node ∧
        node.findBehaviorFiles job.root job.outDir = .ok files := by
  cases hnode : disk.node job.root with
  | error fault =>
    have hsearch : job.search disk = .error (job.root, fault) := by
      rw [search, hnode]
      rfl
    simp [hsearch]
  | ok node => simp [search_of_node hnode]

/-- The search of a root that exists succeeds exactly when neither the path of the root nor that of a
directory it comes to is too long: the trees here have no permissions, so that nothing else is in the
way. Then it finds the behavior files at or below the root that do not lie in the output directory, in
the order of their components, each once. -/
theorem search_finds (job : Job) {disk : Disk} (hordered : disk.top.Ordered)
    (hroot : ∃ location, disk.locate job.root = .ok location) :
    ((∃ files, job.search disk = .ok files) ↔
      Disk.isTooLong job.root = false ∧ IsPassable disk job.root job.outDir) ∧
    ∀ files, job.search disk = .ok files →
      (∀ file, file ∈ files ↔ IsSought disk job.root job.outDir file) ∧
        files.Nodup ∧ files.Pairwise Path.Before := by
  obtain ⟨location, hroot⟩ := hroot
  simp only [search_eq_ok_iff, Node.findBehaviorFiles_eq_ok_iff]
  constructor
  · rw [← exists_node_iff hroot]
    constructor
    · rintro ⟨files, node, hnode, hnone, -⟩
      exact ⟨⟨node, hnode⟩, (find?_isClosed_eq_none_iff hordered hnode).mp hnone⟩
    · rintro ⟨⟨node, hnode⟩, hpassable⟩
      exact ⟨_, node, hnode, (find?_isClosed_eq_none_iff hordered hnode).mpr hpassable, rfl⟩
  · rintro files ⟨node, hnode, -, rfl⟩
    have hbelow := ordered_of_node hordered hnode
    exact ⟨fun file => mem_behaviorFiles_iff hordered hnode, Node.nodup_behaviorFiles hbelow,
      Node.pairwise_behaviorFiles hbelow⟩

theorem search_finds_menu :
    let job : Job := nested "/src/dist"
    menuDisk.top.Ordered ∧ (∃ location, menuDisk.locate job.root = .ok location) ∧
      job.search menuDisk = .ok [.ofString "/src/menu.behavior.js"] ∧
        IsSought menuDisk job.root job.outDir (.ofString "/src/menu.behavior.js") := by
  intro job
  have hroot : ∃ location, menuDisk.locate job.root = .ok location :=
    ⟨["src".toList], eq_ok_of_toOption (by decide +kernel)⟩
  have hsearch : job.search menuDisk = .ok [.ofString "/src/menu.behavior.js"] :=
    eq_ok_of_toOption (by decide +kernel)
  have hfinds := (search_finds job ordered_menuDisk hroot).2 _ hsearch
  exact ⟨ordered_menuDisk, hroot, hsearch, (hfinds.1 _).mp List.mem_cons_self⟩

def deepDisk : Disk :=
  ⟨.directory (.entry "src".toList (.directory (.entry (List.replicate 255 'd') (.directory .empty)
    (.entry "menu.behavior.js".toList (.file (Text.encode "export default \x7b\n\x7d")) .empty)))
      .empty), []⟩

/-- The build of `src`, with so many `/.` behind it that its path can be opened but not that of the
directory in it. -/
def deepJob : Job where
  runNumber := 1
  cwd := .ofString "."
  root := (Path.ofString ".").join ⟨"src".toList ++ (List.replicate 1950 ['/', '.']).flatten⟩
  outDir := .ofString "./dist"
  options := ⟨false⟩

theorem ordered_deepDisk : deepDisk.top.Ordered := by
  have hentry : ∀ name ∈ ["src".toList, List.replicate 255 'd', "menu.behavior.js".toList],
      name ≠ [] ∧ name ≠ ['.'] ∧ name ≠ ['.', '.'] ∧ '/' ∉ name := by decide +kernel
  have hlt : List.replicate 255 'd' < "menu.behavior.js".toList := by decide +kernel
  simp only [List.forall_mem_cons] at hentry
  obtain ⟨hsource, hdeep, hmodule, -⟩ := hentry
  exact ⟨hsource, ⟨hdeep, trivial, ⟨hmodule, trivial, trivial, trivial⟩, hlt⟩, trivial, trivial⟩

/-- A root that exists is not searched to the end when the path of a directory in it is too long. -/
theorem search_fails_deep :
    deepDisk.top.Ordered ∧ (∃ location, deepDisk.locate deepJob.root = .ok location) ∧
      ¬ ∃ files, deepJob.search deepDisk = .ok files := by
  have hsearch : (deepJob.search deepDisk).toOption = none := by decide +kernel
  refine ⟨ordered_deepDisk, ⟨["src".toList], eq_ok_of_toOption (by decide +kernel)⟩, ?_⟩
  rintro ⟨files, hfiles⟩
  rw [hfiles] at hsearch
  cases hsearch

end Job

end BehaviorRegistrar.Command.Build
