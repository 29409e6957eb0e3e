import BehaviorRegistrar.FileTree.Walk
import BehaviorRegistrar.Proofs.Disk.Ordering
import BehaviorRegistrar.Proofs.Utf8Order
import Mathlib.Data.List.Lex

/-!
# What a walk visits

Every visited node is reached from the start of the walk by names, and its path extends the first
path by these names. In an ordered tree the paths are visited in the order of their components, so
that none is visited twice.
-/

namespace BehaviorRegistrar

namespace Path

def Component.rank : Component → Nat
  | .root => 0
  | .here => 1
  | .up => 2
  | .name _ => 3

/-- The order of components: names go by their bytes and come last. -/
def Component.Before : Component → Component → Prop
  | .name first, .name second =>
    Text.encode (String.ofList first) < Text.encode (String.ofList second)
  | first, second => first.rank < second.rank

def Before (first second : Path) : Prop :=
  List.Lex Component.Before first.components second.components

theorem Component.before_name_iff {first second : Name} :
    Component.Before (.name first) (.name second) ↔ first < second := by
  rw [Component.Before, Text.encode_lt_encode_iff, String.lt_iff, String.toList_ofList,
    String.toList_ofList]

theorem Before.ne {first second : Path} (h : first.Before second) : first ≠ second := by
  rintro rfl
  refine List.lex_irrefl (fun component hbefore => ?_) _ h
  cases component with
  | name text => exact List.lt_irrefl text (Component.before_name_iff.mp hbefore)
  | _ => exact Nat.lt_irrefl _ hbefore

/-- Paths that extend one path by names go by these names. -/
theorem before_descend (base : Path) {first second : Location}
    (hfirst : ∀ name ∈ first, IsEntryName name) (hsecond : ∀ name ∈ second, IsEntryName name)
    (h : first < second) : (base.descend first).Before (base.descend second) := by
  rw [Before, components_descend base hfirst, components_descend base hsecond]
  refine List.Lex.append_left _ ?_ base.components
  clear hfirst hsecond
  induction h with
  | nil => exact .nil
  | rel h => exact .rel (Component.before_name_iff.mpr h)
  | cons _ ih => exact .cons ih

end Path

variable {skip : Path → Bool} {visited : Path × Node}

mutual

/-- A visited node is reached by the names that extend its path, past no path that is skipped. -/
theorem Node.exists_of_mem_walk {path : Path} {node : Node} (hordered : node.Ordered)
    (h : visited ∈ node.walk skip path) :
    ∃ names, (∀ name ∈ names, IsEntryName name) ∧ visited.1 = path.descend names ∧
      node.at? names = some visited.2 ∧ ∀ front, front <+: names → ¬ skip (path.descend front) := by
  cases node with
  | file contents =>
    rw [Node.walk] at h
    split at h
    · cases h
    · rename_i hskip
      obtain rfl := List.mem_singleton.mp h
      refine ⟨[], by simp, rfl, rfl, fun front hfront => ?_⟩
      rwa [List.prefix_nil.mp hfront]
  | directory entries =>
    rw [Node.walk] at h
    split at h
    · cases h
    · rename_i hskip
      obtain rfl | h := List.mem_cons.mp h
      · refine ⟨[], by simp, rfl, rfl, fun front hfront => ?_⟩
        rwa [List.prefix_nil.mp hfront]
      · obtain ⟨name, names, hname, hnames, hpath, hnode, hbelow⟩ :=
          Entries.exists_of_mem_walk hordered h
        refine ⟨name :: names, List.forall_mem_cons.mpr ⟨hname, hnames⟩, hpath, hnode, ?_⟩
        intro front hfront
        cases front with
        | nil => exact hskip
        | cons first rest =>
          obtain ⟨rfl, hrest⟩ := List.cons_prefix_cons.mp hfront
          exact hbelow rest hrest

theorem Entries.exists_of_mem_walk {path : Path} {entries : Entries} (hordered : entries.Ordered)
    (h : visited ∈ entries.walk skip path) :
    ∃ name names, IsEntryName name ∧ (∀ name ∈ names, IsEntryName name) ∧
      visited.1 = path.descend (name :: names) ∧
      (entries.find? name).bind (Node.at? names) = some visited.2 ∧
      ∀ front, front <+: names → ¬ skip (path.descend (name :: front)) := by
  cases entries with
  | empty => cases h
  | entry first node rest =>
    obtain ⟨hname, hnode, hrest, -⟩ := id hordered
    obtain h | h := List.mem_append.mp h
    · obtain ⟨names, hnames, hpath, hat, hbelow⟩ := Node.exists_of_mem_walk hnode h
      exact ⟨first, names, hname, hnames, hpath, by simp [Entries.find?, hat], hbelow⟩
    · obtain ⟨name, names, hname, hnames, hpath, hat, hbelow⟩ := Entries.exists_of_mem_walk hrest h
      obtain ⟨found, hfind, -⟩ := Option.bind_eq_some_iff.mp hat
      have hne : first ≠ name := by
        rintro rfl
        exact List.lt_irrefl first (Entries.lt_of_find? hordered hfind)
      exact ⟨name, names, hname, hnames, hpath, by simpa [Entries.find?, hne] using hat, hbelow⟩

end

theorem Node.isEntryName_of_at? {node found : Node} {names : Location} (hordered : node.Ordered)
    (h : node.at? names = some found) : ∀ name ∈ names, IsEntryName name := by
  induction names generalizing node with
  | nil => simp
  | cons first rest ih =>
    cases node with
    | file contents => cases h
    | directory entries =>
      obtain ⟨inner, hfind, hinner⟩ := Option.bind_eq_some_iff.mp h
      obtain ⟨hfirst, hnode⟩ := Entries.ordered_of_find? hordered hfind
      exact List.forall_mem_cons.mpr ⟨hfirst, ih hnode hinner⟩

theorem Entries.mem_walk_of_find? {path : Path} {entries : Entries} {name : Name} {node : Node}
    (h : entries.find? name = some node) (hvisited : visited ∈ node.walk skip (path.join ⟨name⟩)) :
    visited ∈ entries.walk skip path := by
  fun_induction Entries.find? name entries with
  | case1 => cases h
  | case2 found rest =>
    obtain rfl := Option.some.inj h
    exact List.mem_append_left _ hvisited
  | case3 first found rest _ ih => exact List.mem_append_right _ (ih h)

/-- What names reach past no path that is skipped is visited. -/
theorem Node.mem_walk {path : Path} {node found : Node} {names : Location}
    (h : node.at? names = some found)
    (hskip : ∀ front, front <+: names → ¬ skip (path.descend front)) :
    (path.descend names, found) ∈ node.walk skip path := by
  have hstart : ¬ skip path := hskip [] List.nil_prefix
  induction names generalizing node path with
  | nil =>
    obtain rfl : node = found := Option.some.inj h
    rw [Node.walk.eq_def, if_neg hstart]
    exact List.mem_cons_self
  | cons name rest ih =>
    cases node with
    | file contents => cases h
    | directory entries =>
      obtain ⟨inner, hfind, hinner⟩ := Option.bind_eq_some_iff.mp h
      have hbelow : ∀ front, front <+: rest → ¬ skip ((path.join ⟨name⟩).descend front) :=
        fun front hfront => hskip (name :: front) (List.cons_prefix_cons.mpr ⟨rfl, hfront⟩)
      rw [Node.walk, if_neg hstart]
      refine List.mem_cons_of_mem _ (Entries.mem_walk_of_find? hfind ?_)
      exact ih hinner hbelow (hbelow [] List.nil_prefix)

mutual

/-- A walk visits paths in ascending order: a directory before what lies in it, and what lies in it
by the names of its entries. -/
theorem Node.pairwise_walk {path : Path} {node : Node} (hordered : node.Ordered) :
    (node.walk skip path).Pairwise fun first second => first.1.Before second.1 := by
  cases node with
  | file contents =>
    rw [Node.walk]
    split <;> simp
  | directory entries =>
    rw [Node.walk]
    split
    · exact List.Pairwise.nil
    · refine List.pairwise_cons.mpr ⟨fun visited hvisited => ?_, Entries.pairwise_walk hordered⟩
      obtain ⟨name, names, hname, hnames, hpath, -⟩ := Entries.exists_of_mem_walk hordered hvisited
      rw [hpath, ← Path.descend_nil path]
      exact Path.before_descend path (List.forall_mem_nil _)
        (List.forall_mem_cons.mpr ⟨hname, hnames⟩) .nil

theorem Entries.pairwise_walk {path : Path} {entries : Entries} (hordered : entries.Ordered) :
    (entries.walk skip path).Pairwise fun first second => first.1.Before second.1 := by
  cases entries with
  | empty => simp [Entries.walk]
  | entry first node rest =>
    obtain ⟨hfirst, hnode, hrest, -⟩ := id hordered
    refine List.pairwise_append.mpr
      ⟨Node.pairwise_walk hnode, Entries.pairwise_walk hrest, fun visited hvisited other hother => ?_⟩
    obtain ⟨below, hbelow, hpath, -⟩ := Node.exists_of_mem_walk hnode hvisited
    obtain ⟨name, names, hname, hnames, hpath', hat, -⟩ := Entries.exists_of_mem_walk hrest hother
    obtain ⟨found, hfind, -⟩ := Option.bind_eq_some_iff.mp hat
    rw [hpath, hpath', ← Path.descend_cons]
    exact Path.before_descend path (List.forall_mem_cons.mpr ⟨hfirst, hbelow⟩)
      (List.forall_mem_cons.mpr ⟨hname, hnames⟩) (.rel (Entries.lt_of_find? hordered hfind))

end

/-- A behavior file is a file at the names that extend its path, and goes by the last of them. It
does not lie in the output directory. -/
theorem Node.exists_of_mem_behaviorFiles {root outDir file : Path} {node : Node}
    (hordered : node.Ordered) (h : file ∈ node.behaviorFiles root outDir) :
    ∃ names contents, (∀ name ∈ names, IsEntryName name) ∧ file = root.descend names ∧
      node.at? names = some (.file contents) ∧
        ModuleId.isBehavior (file.fileName?.getD file.spelling) ∧
          ∀ front, front <+: names → ¬ (root.descend front).same outDir := by
  obtain ⟨visited, hvisited, rfl⟩ := List.mem_map.mp h
  obtain ⟨hwalk, hbehavior⟩ := List.mem_filter.mp hvisited
  obtain ⟨names, hnames, hpath, hat, hbelow⟩ := Node.exists_of_mem_walk hordered hwalk
  rw [isBehaviorModule] at hbehavior
  split at hbehavior
  · cases hbehavior
  · rename_i contents hfile
    exact ⟨names, contents, hnames, hpath, hfile ▸ hat, hbehavior, hbelow⟩

/-- A file with the name of a behavior file is one when no path on the way to it is skipped. -/
theorem Node.mem_behaviorFiles {root outDir : Path} {node : Node} {names : Location}
    {contents : Contents} (hat : node.at? names = some (.file contents))
    (hbehavior :
      ModuleId.isBehavior ((root.descend names).fileName?.getD (root.descend names).spelling))
    (hskip : ∀ front, front <+: names → ¬ (root.descend front).same outDir) :
    root.descend names ∈ node.behaviorFiles root outDir :=
  List.mem_map.mpr ⟨(root.descend names, .file contents),
    List.mem_filter.mpr ⟨Node.mem_walk hat hskip, hbehavior⟩, rfl⟩

theorem Node.behaviorFiles_file (root outDir : Path) (contents : Contents) :
    (Node.file contents).behaviorFiles root outDir = [] ∨
      (Node.file contents).behaviorFiles root outDir = [root] := by
  rw [behaviorFiles, walk]
  split
  · exact .inl rfl
  · rw [List.filter_cons]
    split
    · exact .inr rfl
    · exact .inl rfl

theorem Node.findBehaviorFiles_eq_ok_iff {root outDir : Path} {node : Node} {files : List Path} :
    node.findBehaviorFiles root outDir = .ok files ↔
      (node.walk (fun path => path.same outDir) root).find? isClosed = none ∧
        files = node.behaviorFiles root outDir := by
  rw [findBehaviorFiles]
  split
  · rename_i visited hclosed
    simp [hclosed]
  · rename_i hnone
    simp [hnone, eq_comm]

theorem Node.pairwise_behaviorFiles {root outDir : Path} {node : Node} (hordered : node.Ordered) :
    (node.behaviorFiles root outDir).Pairwise Path.Before :=
  List.pairwise_map.mpr ((Node.pairwise_walk hordered).sublist List.filter_sublist)

theorem Node.nodup_behaviorFiles {root outDir : Path} {node : Node} (hordered : node.Ordered) :
    (node.behaviorFiles root outDir).Nodup :=
  (Node.pairwise_behaviorFiles hordered).imp Path.Before.ne

end BehaviorRegistrar
