import BehaviorRegistrar.Command.Build
import BehaviorRegistrar.Proofs.Disk.Following
import BehaviorRegistrar.Proofs.ModuleNames
import BehaviorRegistrar.Proofs.Naming
import BehaviorRegistrar.Proofs.Walks

/-!
# The sources of a build

A source is a file whose name is that of a behavior file, both in the walk that finds it and in the
plugin that is given its path. Different sources have their outputs at different places, and the name
under which an output is written at first is never that of a behavior file.
-/

namespace BehaviorRegistrar

namespace ModuleId

theorem isBehavior_append {front : List Char} (hfront : front = [] ∨ ∃ body, front = body ++ ['/'])
    (name : List Char) : isBehavior (front ++ name) = isBehavior name := by
  have hdirectory : IsDirectoryPrefix front :=
    hfront.imp_right fun hslash => hslash.imp fun body hbody => ⟨'/', hbody, rfl⟩
  rw [isBehavior, isBehavior, baseName_append hdirectory]

/-- A path that ends in a name is taken for what the name alone is taken for, whatever other
separators the name has. -/
theorem isBehaviorFile_of_spelling {path : Path} {front : List Char} {name : Name}
    (hspelling : path.spelling = front ++ name)
    (hfront : front = [] ∨ ∃ body, front = body ++ ['/']) (hname : IsEntryName name) :
    path.fileName? = some name ∧ isBehaviorFile path.text = isBehavior name := by
  refine ⟨Path.fileName?_of_spelling hname hspelling hfront, ?_⟩
  rw [isBehaviorFile, Path.text, String.toList_ofList, hspelling, isBehavior_append hfront]

theorem isBehavior_append_tmp (front : List Char) (number : Nat) :
    isBehavior (front ++ ".tmp.".toList ++ (toString number).toList) = false := by
  have hdigits := @plain_of_mem_toString number
  generalize (toString number).toList = digits at hdigits ⊢
  have hdots : '.' ∉ digits := fun hdot => (hdigits hdot).2 rfl
  have hplain : ∀ c ∈ ".tmp.".toList ++ digits, ¬ isSeparator c := by
    simpa [isSeparator] using fun c hc => (hdigits (c := c) hc).1
  have hbase : baseName (front ++ ".tmp.".toList ++ digits) =
      baseName front ++ ".tmp".toList ++ '.' :: digits := by
    rw [List.append_assoc, baseName_append_plain front hplain]
    simp
  rw [← Bool.not_eq_true, isBehavior_iff]
  rintro ⟨name, extension, hname, hextension, heq⟩
  have hstem : stem? (name ++ behaviorMark ++ '.' :: extension) = some (name ++ behaviorMark) :=
    stem?_append (by simp [hname]) hextension
  rw [← heq, hbase, stem?_append (by simp) hdots] at hstem
  have hlast := congrArg List.getLast? (Option.some.inj hstem)
  have hmark : behaviorMark.getLast? = some 'r' := by decide
  simp [List.getLast?_append, hmark] at hlast

end ModuleId

namespace Output

/-- The file beside an output has a name that no behavior file has. -/
theorem place_temporary (disk : Disk) (path : Path) (run : Nat) :
    ∃ location name, disk.place (temporary path run) = location ++ [name] ∧
      ModuleId.isBehavior name = false := by
  refine ⟨disk.place (directory path), (temporaryName path run).spelling,
    Disk.place_join_name disk _ (isEntryName_temporaryName path run), ?_⟩
  exact ModuleId.isBehavior_append_tmp ('.' :: path.fileName?.getD "behavior".toList) run

end Output

namespace Command.Build

def found (root outDir : Path) (disk : Disk) : List Path :=
  match disk.node root with
  | .error _ => []
  | .ok node =>
    match node.findBehaviorFiles root outDir with
    | .error _ => []
    | .ok files => files

def outfile (root outDir file : Path) : Path := outDir.join ((root.below? file).getD file)

variable {root outDir file other : Path} {disk : Disk} {node : Node}

theorem view_below_root (hnode : disk.node root = .ok node) (names : Location) :
    disk.view (disk.place root ++ names) = node.held? names := by
  rw [Disk.view, Node.held?, Node.at?_append, Disk.at?_place_of_node hnode]
  rfl

theorem ordered_of_node (hordered : disk.top.Ordered) (hnode : disk.node root = .ok node) :
    node.Ordered :=
  Node.ordered_of_at? hordered (Disk.at?_place_of_node hnode)

theorem exists_node_of_mem_found (h : file ∈ found root outDir disk) :
    ∃ node, disk.node root = .ok node ∧ found root outDir disk = node.behaviorFiles root outDir := by
  rw [found] at h ⊢
  cases hnode : disk.node root with
  | error fault => simp [hnode] at h
  | ok node =>
    rw [hnode] at h
    cases hfiles : node.findBehaviorFiles root outDir with
    | error fault => simp [hfiles] at h
    | ok files =>
      refine ⟨node, rfl, ?_⟩
      dsimp only
      rw [hfiles]
      exact (Node.findBehaviorFiles_eq_ok_iff.mp hfiles).2

/-- A file below a root is reached by a path that ends in its name. -/
theorem exists_spelling_of_file {names : Location} {contents : Contents}
    (hnode : disk.node root = .ok node) (hnames : ∀ name ∈ names, IsEntryName name)
    (hat : node.at? names = some (.file contents)) :
    ∃ front location name, (root.descend names).spelling = front ++ name ∧
      (front = [] ∨ ∃ body, front = body ++ ['/']) ∧ IsEntryName name ∧
        disk.place (root.descend names) = location ++ [name] := by
  obtain rfl | ⟨init, last, rfl⟩ := List.eq_nil_or_concat names
  · obtain rfl : node = .file contents := by simpa [Node.at?] using hat
    obtain ⟨front, name, location, hroot⟩ := Disk.exists_name_of_file hnode
    exact ⟨front, location, name, hroot⟩
  · have hlast := hnames last (by simp)
    obtain ⟨front, hjoin, hfront⟩ := Path.exists_spelling_join_name (root.descend init) hlast
    rw [List.concat_eq_append, Path.descend_append]
    exact ⟨front, _, last, hjoin, hfront, hlast, Disk.place_join_name disk _ hlast⟩

/-- A source stands at its place under the name of a behavior file, and by its path the plugin takes
it for one. -/
theorem exists_name_of_mem_found (hordered : disk.top.Ordered) (h : file ∈ found root outDir disk) :
    ∃ location name contents, disk.place file = location ++ [name] ∧
      ModuleId.isBehavior name ∧ ModuleId.isBehaviorFile file.text ∧
        disk.held? file = some (some contents) := by
  obtain ⟨node, hnode, hfound⟩ := exists_node_of_mem_found h
  rw [hfound] at h
  have hroot := Disk.at?_place_of_node hnode
  obtain ⟨names, contents, hnames, rfl, hat, hbehavior, -⟩ :=
    Node.exists_of_mem_behaviorFiles (Node.ordered_of_at? hordered hroot) h
  have hheld : disk.held? (root.descend names) = some (some contents) := by
    rw [Disk.held?, Disk.place_descend disk root hnames, Node.held?_eq_file, Node.at?_append, hroot]
    exact hat
  obtain ⟨front, location, name, hspelling, hfront, hname, hplace⟩ :=
    exists_spelling_of_file hnode hnames hat
  obtain ⟨hfile, hrouted⟩ := ModuleId.isBehaviorFile_of_spelling hspelling hfront hname
  rw [hfile, Option.getD_some] at hbehavior
  exact ⟨location, name, contents, hplace, hbehavior, hrouted.trans hbehavior, hheld⟩

/-- The output of a source is reached from the output directory as the source is from the root. -/
theorem exists_names_of_mem_found (hordered : disk.top.Ordered) (h : file ∈ found root outDir disk) :
    ∃ names, file = root.descend names ∧ disk.place file = disk.place root ++ names ∧
      disk.place (outfile root outDir file) = disk.place outDir ++ names := by
  obtain ⟨node, hnode, hfound⟩ := exists_node_of_mem_found h
  rw [hfound] at h
  obtain ⟨names, contents, hnames, rfl, -⟩ := Node.exists_of_mem_behaviorFiles
    (Node.ordered_of_at? hordered (Disk.at?_place_of_node hnode)) h
  refine ⟨names, rfl, Disk.place_descend disk root hnames, ?_⟩
  rw [outfile, Path.below?_descend root hnames, Option.getD_some,
    Disk.place_join_spell disk outDir hnames]

/-- Different sources have their outputs at different places. -/
theorem eq_of_place_outfile (hordered : disk.top.Ordered) (h : file ∈ found root outDir disk)
    (hother : other ∈ found root outDir disk)
    (hplace : disk.place (outfile root outDir file) = disk.place (outfile root outDir other)) :
    file = other := by
  obtain ⟨names, rfl, -, htarget⟩ := exists_names_of_mem_found hordered h
  obtain ⟨others, rfl, -, hothers⟩ := exists_names_of_mem_found hordered hother
  rw [htarget, hothers] at hplace
  rw [List.append_cancel_left hplace]

theorem nodup_found (hordered : disk.top.Ordered) : (found root outDir disk).Nodup := by
  by_cases h : found root outDir disk = []
  · rw [h]
    exact List.nodup_nil
  · obtain ⟨file, hfile⟩ := List.exists_mem_of_ne_nil _ h
    obtain ⟨node, hnode, hfound⟩ := exists_node_of_mem_found hfile
    rw [hfound]
    exact Node.nodup_behaviorFiles (Node.ordered_of_at? hordered (Disk.at?_place_of_node hnode))

end Command.Build

end BehaviorRegistrar
