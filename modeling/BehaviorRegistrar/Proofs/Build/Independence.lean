import BehaviorRegistrar.Proofs.Build.Preservation
import BehaviorRegistrar.Proofs.Footprint
import Mathlib.Data.List.Nodup

/-!
# In which order the steps of a build are taken

Between straight directories, of which the output directory does not hold the root, no output is a
source or lies behind another output. When no file beside an output is a directory on the way to
another one either, a step finds what it looks at as it was before any other step, and two steps come
to the same in either order. So all orders come to the same.
-/

namespace BehaviorRegistrar.Command.Build.Job

variable {job : Job} {sources order : List Path} {source other : Path} {disk : Disk}
  {contents : Contents}

/-- Sources that go by straight paths, with outputs that keep out of each other's way and off the
sources. -/
structure IsSpread (job : Job) (sources : List Path) : Prop where
  behavior : ∀ source ∈ sources, ModuleId.isBehaviorFile source.text
  straight : ∀ source ∈ sources, source.IsStraight ∧ source.EndsInName
  marked : ∀ source ∈ sources, IsMarked source.names
  straightTarget : ∀ source ∈ sources,
    (job.target source).IsStraight ∧ (job.target source).EndsInName
  off : ∀ source ∈ sources, ∀ file ∈ sources, (job.target source).names ≠ file.names
  apart : ∀ source ∈ sources, ∀ other ∈ sources, source ≠ other →
    Output.Apart job.runNumber (job.target source) (job.target other)

structure IsReady (sources : List Path) (disk : Disk) : Prop where
  ordered : disk.top.Ordered
  top : disk.view [] = some none
  held : ∀ source ∈ sources, ∃ contents, disk.view source.names = some (some contents)

/-- What a step comes to, and what it changes, on a disk with a view on which its source holds some
bytes. -/
def footprint (job : Job) (source : Path) (contents : Contents) (view : View) :
    Except ModuleError BuiltFile × Patch :=
  if Disk.isRefused source then (.error (.disk .nameTooLong), .empty)
  else
    let written := Output.footprint job.runNumber (job.target source) (job.output source contents) view
    (match written.1 with
      | .error fault => .error (.disk fault)
      | .ok () => .ok (job.record source contents), written.2)

theorem step_eq_footprint (hspread : job.IsSpread sources) (hsource : source ∈ sources)
    (hready : IsReady sources disk) (hheld : disk.view source.names = some (some contents)) :
    ∃ after, job.step source disk = ((job.footprint source contents disk.view).1, after) ∧
      after.Shows disk.here (disk.view.patched (job.footprint source contents disk.view).2) := by
  obtain ⟨hstraight, hend⟩ := hspread.straight source hsource
  obtain ⟨htarget, htargetEnd⟩ := hspread.straightTarget source hsource
  have hread := Disk.read_of_straight hstraight hend hheld
  cases hrefused : Disk.isRefused source with
  | true =>
    rw [hrefused] at hread
    rw [step_of_refused hread, footprint, if_pos hrefused]
    exact ⟨disk, rfl, rfl, hready.ordered, rfl⟩
  | false =>
    rw [hrefused] at hread
    obtain ⟨after, hwrite, hshows⟩ := Output.write_eq_footprint hready.ordered hready.top htarget
      htargetEnd job.runNumber
      (Loader.standard.transformWith (Text.decode contents) source.text job.options)
    rw [step_of_read (hspread.behavior source hsource) hread, hwrite, footprint,
      if_neg (by simp [hrefused]), ← output]
    refine ⟨after, ?_, hshows⟩
    dsimp only
    cases (Output.footprint job.runNumber (job.target source) (job.output source contents)
      disk.view).1 <;> rfl

theorem held_step (hspread : job.IsSpread sources) (hsource : source ∈ sources)
    (hother : other ∈ sources) (hheld : disk.view other.names = some (some contents)) :
    (job.step source disk).2.view other.names = some (some contents) := by
  refine job.held?_step (hspread.behavior source hsource) (hspread.marked other hother) hheld
    fun built _ hplace => ?_
  rw [Disk.place_of_straight disk (hspread.straightTarget source hsource).1] at hplace
  exact hspread.off source hsource other hother hplace

theorem isReady_step (hspread : job.IsSpread sources) (hsource : source ∈ sources)
    (hready : IsReady sources disk) : IsReady sources (job.step source disk).2 := by
  have hgrows := job.growth_step source disk hready.ordered
  refine ⟨hgrows.ordered, hgrows.directories [] hready.top, fun other hother => ?_⟩
  obtain ⟨contents, hheld⟩ := hready.held other hother
  exact ⟨contents, held_step hspread hsource hother hheld⟩

theorem footprint_patched (hspread : job.IsSpread sources) (hsource : source ∈ sources)
    (hother : other ∈ sources) (hne : source ≠ other) (contents bytes : Contents) (view : View) :
    job.footprint other bytes (view.patched (job.footprint source contents view).2) =
      job.footprint other bytes view := by
  obtain ⟨htarget, hend⟩ := hspread.straightTarget source hsource
  obtain ⟨htarget', hend'⟩ := hspread.straightTarget other hother
  have hsame := Output.footprint_patched htarget hend htarget' hend'
    (hspread.apart source hsource other hother hne) (job.output source contents)
    (job.output other bytes) view
  simp only [footprint]
  cases Disk.isRefused source with
  | true => rfl
  | false => simp only [Bool.false_eq_true, ↓reduceIte, hsame]

theorem patched_footprint_comm (hspread : job.IsSpread sources) (hsource : source ∈ sources)
    (hother : other ∈ sources) (hne : source ≠ other) (contents bytes : Contents) (view : View) :
    (view.patched (job.footprint source contents view).2).patched
        (job.footprint other bytes view).2 =
      (view.patched (job.footprint other bytes view).2).patched
        (job.footprint source contents view).2 := by
  obtain ⟨htarget, hend⟩ := hspread.straightTarget source hsource
  obtain ⟨htarget', hend'⟩ := hspread.straightTarget other hother
  have hcomm := Output.patched_footprint_comm htarget hend htarget' hend'
    (hspread.apart source hsource other hother hne) (job.output source contents)
    (job.output other bytes) view
  simp only [footprint]
  cases Disk.isRefused source with
  | true => rfl
  | false =>
    cases Disk.isRefused other with
    | true => rfl
    | false => simpa only [Bool.false_eq_true, ↓reduceIte] using hcomm

private theorem step_step (hspread : job.IsSpread sources) (hready : IsReady sources disk)
    (hsource : source ∈ sources) (hother : other ∈ sources) (hne : source ≠ other)
    {bytes : Contents} (hheld : disk.view source.names = some (some contents))
    (hheld' : disk.view other.names = some (some bytes)) :
    (job.step other (job.step source disk).2).1 = (job.footprint other bytes disk.view).1 ∧
      (job.step other (job.step source disk).2).2.Shows disk.here
        ((disk.view.patched (job.footprint source contents disk.view).2).patched
          (job.footprint other bytes disk.view).2) := by
  obtain ⟨first, hfirst, hshows⟩ := step_eq_footprint hspread hsource hready hheld
  have hreadyFirst := isReady_step hspread hsource hready
  have hheldFirst := held_step hspread hsource hother hheld'
  rw [hfirst] at hreadyFirst hheldFirst ⊢
  obtain ⟨second, hsecond, hshows'⟩ := step_eq_footprint hspread hother hreadyFirst hheldFirst
  rw [hshows.view, hshows.here, footprint_patched hspread hsource hother hne] at hshows'
  rw [hshows.view, footprint_patched hspread hsource hother hne] at hsecond
  rw [hsecond]
  exact ⟨rfl, hshows'⟩

/-- Two different steps come to the same in either order. -/
theorem step_comm (hspread : job.IsSpread sources) (hready : IsReady sources disk)
    (hsource : source ∈ sources) (hother : other ∈ sources) (hne : source ≠ other) :
    (job.step other (job.step source disk).2).1 = (job.step other disk).1 ∧
      (job.step other (job.step source disk).2).2 = (job.step source (job.step other disk).2).2 := by
  obtain ⟨contents, hheld⟩ := hready.held source hsource
  obtain ⟨bytes, hheld'⟩ := hready.held other hother
  obtain ⟨hresult, hshows⟩ := step_step hspread hready hsource hother hne hheld hheld'
  obtain ⟨-, hshows'⟩ := step_step hspread hready hother hsource hne.symm hheld' hheld
  rw [patched_footprint_comm hspread hother hsource hne.symm] at hshows'
  obtain ⟨after, hstep, -⟩ := step_eq_footprint hspread hother hready hheld'
  exact ⟨hresult.trans (by rw [hstep]), hshows.eq hshows'⟩

theorem steps_results (hspread : job.IsSpread sources) (hready : IsReady sources disk)
    (hsub : order ⊆ sources) (hnodup : order.Nodup) :
    (job.steps order disk).1 = order.map fun source => (source, (job.step source disk).1) := by
  induction order generalizing disk with
  | nil => rfl
  | cons first rest ih =>
    have hfirst := hsub List.mem_cons_self
    have hrest : rest ⊆ sources := fun other hother => hsub (List.mem_cons_of_mem first hother)
    obtain ⟨hnot, hnodup⟩ := List.nodup_cons.mp hnodup
    rw [steps_cons, List.map_cons, ih (isReady_step hspread hfirst hready) hrest hnodup]
    refine congrArg (List.cons _) (List.map_congr_left fun other hother => ?_)
    have hne : first ≠ other := fun heq => hnot (heq ▸ hother)
    rw [(step_comm hspread hready hfirst (hrest hother) hne).1]

/-- Steps in another order leave the same disk. -/
theorem steps_perm {first second : List Path} (hspread : job.IsSpread sources)
    (hready : IsReady sources disk) (hperm : first.Perm second) (hsub : first ⊆ sources)
    (hnodup : first.Nodup) : (job.steps first disk).2 = (job.steps second disk).2 := by
  induction hperm generalizing disk with
  | nil => rfl
  | cons source _ ih =>
    rw [steps_cons, steps_cons]
    exact ih (isReady_step hspread (hsub List.mem_cons_self) hready)
      (fun other hother => hsub (List.mem_cons_of_mem source hother)) (List.nodup_cons.mp hnodup).2
  | swap source other rest =>
    have hne : other ≠ source := fun heq => by simp [heq] at hnodup
    have hcomm := (step_comm hspread hready (hsub List.mem_cons_self)
      (hsub (List.mem_cons_of_mem other List.mem_cons_self)) hne).2
    simp only [steps_cons, hcomm]
  | trans hfirst _ ih ih' =>
    refine (ih hready hsub hnodup).trans (ih' hready (fun other hother => ?_) ?_)
    · exact hsub (hfirst.mem_iff.mpr hother)
    · exact hfirst.nodup_iff.mp hnodup

section Straight

variable (hordered : disk.top.Ordered) (hroot : job.root.isAbsolute = true)
  (hrootDown : Path.Component.up ∉ job.root.components) (hout : job.outDir.isAbsolute = true)
  (houtDown : Path.Component.up ∉ job.outDir.components)

include hordered in
private theorem exists_names_of_source
    (hdirectory : ∀ contents, disk.node job.root ≠ .ok (.file contents))
    (h : source ∈ job.sources disk) :
    ∃ names, names ≠ [] ∧ (∀ name ∈ names, IsEntryName name) ∧ source = job.root.descend names ∧
      job.target source = job.outDir.join ⟨Path.spell (names.map .name)⟩ ∧
      ∀ front, front <+: names → ¬ (job.root.descend front).same job.outDir := by
  obtain ⟨node, hnode, hfound⟩ := exists_node_of_mem_found h
  rw [sources, hfound] at h
  obtain ⟨names, contents, hnames, rfl, hat, -, hbelow⟩ := Node.exists_of_mem_behaviorFiles
    (Node.ordered_of_at? hordered (Disk.at?_place_of_node hnode)) h
  refine ⟨names, ?_, hnames, rfl, ?_, hbelow⟩
  · rintro rfl
    obtain rfl : node = .file contents := by simpa [Node.at?] using hat
    exact hdirectory contents hnode
  · rw [target, outfile, Path.below?_descend job.root hnames, Option.getD_some]

include hordered hroot hrootDown hout houtDown in
/-- No source lies in the output directory. -/
private theorem not_prefix_of_source
    (hdirectory : ∀ contents, disk.node job.root ≠ .ok (.file contents))
    (hstart : ¬ job.outDir.components <+: job.root.components) (h : source ∈ job.sources disk) :
    ¬ job.outDir.names <+: source.names := by
  obtain ⟨-, hrootNames⟩ := Path.isStraight_of_components hroot hrootDown
  obtain ⟨-, houtNames⟩ := Path.isStraight_of_components hout houtDown
  obtain ⟨names, -, hnames, rfl, -, hbelow⟩ := exists_names_of_source hordered hdirectory h
  intro hsource
  rw [Path.names_descend job.root hnames] at hsource
  obtain hinside | hinside :=
    List.prefix_or_prefix_of_prefix hsource (List.prefix_append job.root.names names)
  · refine hstart ?_
    rw [hrootNames, houtNames]
    exact List.cons_prefix_cons.mpr ⟨rfl, hinside.map _⟩
  · obtain ⟨front, hfront⟩ := hinside
    have hfrontNames : front <+: names := by
      rw [← hfront] at hsource
      exact List.prefix_append_right_inj _ |>.mp hsource
    refine hbelow front hfrontNames ?_
    rw [Path.same, beq_iff_eq,
      Path.components_descend job.root fun name hname => hnames name (hfrontNames.subset hname),
      hrootNames, houtNames, ← hfront]
    simp

include hordered hroot hrootDown in
private theorem straight_source
    (hdirectory : ∀ contents, disk.node job.root ≠ .ok (.file contents))
    (h : source ∈ job.sources disk) : source.IsStraight ∧ source.EndsInName := by
  obtain ⟨names, hne, hnames, rfl, -⟩ := exists_names_of_source hordered hdirectory h
  have hrootStraight := (Path.isStraight_of_components hroot hrootDown).1
  exact ⟨Path.isStraight_descend hrootStraight hnames, Path.endsInName_descend _ hne hnames⟩

include hordered hout houtDown in
private theorem straight_target
    (hdirectory : ∀ contents, disk.node job.root ≠ .ok (.file contents))
    (h : source ∈ job.sources disk) :
    (job.target source).IsStraight ∧ (job.target source).EndsInName := by
  obtain ⟨names, hne, hnames, -, htarget, -⟩ := exists_names_of_source hordered hdirectory h
  have houtStraight := (Path.isStraight_of_components hout houtDown).1
  rw [htarget]
  exact ⟨Path.isStraight_join_spell houtStraight hne hnames, Path.endsInName_join_spell _ hne hnames⟩

include hordered hroot hrootDown hout houtDown in
private theorem names_target_ne
    (hdirectory : ∀ contents, disk.node job.root ≠ .ok (.file contents))
    (hstart : ¬ job.outDir.components <+: job.root.components) (h : source ∈ job.sources disk)
    (h' : other ∈ job.sources disk) : (job.target source).names ≠ other.names := by
  intro heq
  obtain ⟨names, hne, hnames, -, htarget, -⟩ := exists_names_of_source hordered hdirectory h
  rw [htarget, Path.names_join_spell _ hne hnames] at heq
  exact not_prefix_of_source hordered hroot hrootDown hout houtDown hdirectory hstart h'
    (heq ▸ List.prefix_append _ _)

include hordered in
private theorem eq_of_names_target
    (hdirectory : ∀ contents, disk.node job.root ≠ .ok (.file contents))
    (h : source ∈ job.sources disk) (h' : other ∈ job.sources disk)
    (hbefore : (job.target source).names <+: (job.target other).names) : source = other := by
  have hlist := job.isSourceList_sources hordered
  obtain ⟨contents, hheld⟩ := hlist.held source h
  obtain ⟨bytes, hheld'⟩ := hlist.held other h'
  obtain ⟨names, hne, hnames, rfl, htarget, -⟩ := exists_names_of_source hordered hdirectory h
  obtain ⟨names', hne', hnames', rfl, htarget', -⟩ := exists_names_of_source hordered hdirectory h'
  rw [htarget, htarget', Path.names_join_spell _ hne hnames, Path.names_join_spell _ hne' hnames',
    List.prefix_append_right_inj] at hbefore
  rw [Disk.held?_eq_view, Disk.place_descend disk job.root hnames] at hheld
  rw [Disk.held?_eq_view, Disk.place_descend disk job.root hnames'] at hheld'
  by_cases heq : names = names'
  · rw [heq]
  · have hbehind := Disk.view_behind
      (show disk.view (disk.place job.root ++ names) ≠ some none by simp [hheld])
      ((List.prefix_append_right_inj (disk.place job.root)).mpr hbefore) (by simpa using heq)
    rw [hheld'] at hbehind
    cases hbehind

include hordered hroot hrootDown hout houtDown in
theorem isSpread_sources (hdirectory : ∀ contents, disk.node job.root ≠ .ok (.file contents))
    (hstart : ¬ job.outDir.components <+: job.root.components)
    (hclear : ∀ source ∈ job.sources disk, ∀ other ∈ job.sources disk,
      ¬ disk.place (Output.temporary (job.target source) job.runNumber) <+:
        disk.place (job.target other)) :
    job.IsSpread (job.sources disk) := by
  have hlist := job.isSourceList_sources hordered
  have hclear : ∀ source ∈ job.sources disk, ∀ other ∈ job.sources disk,
      ¬ (Output.temporary (job.target source) job.runNumber).names <+: (job.target other).names := by
    intro source h other h'
    obtain ⟨hsource, hend⟩ := straight_target hordered hout houtDown hdirectory h
    obtain ⟨hother, -⟩ := straight_target hordered hout houtDown hdirectory h'
    have hbeside := (Output.temporary_of_straight hsource hend job.runNumber).1
    rw [← Disk.place_of_straight disk hbeside, ← Disk.place_of_straight disk hother]
    exact hclear source h other h'
  exact {
    behavior := hlist.behavior
    straight := fun source h => straight_source hordered hroot hrootDown hdirectory h
    marked := fun source h => by
      have hstraight := (straight_source hordered hroot hrootDown hdirectory h).1
      rw [← Disk.place_of_straight disk hstraight]
      exact hlist.marked source h
    straightTarget := fun source h => straight_target hordered hout houtDown hdirectory h
    off := fun source h other h' =>
      names_target_ne hordered hroot hrootDown hout houtDown hdirectory hstart h h'
    apart := fun source h other h' hne => {
      left := fun hbefore => hne (eq_of_names_target hordered hdirectory h h' hbefore)
      right := fun hbefore => hne (eq_of_names_target hordered hdirectory h' h hbefore).symm
      besideLeft := hclear source h other h'
      besideRight := hclear other h' source h
      besides := fun heq => by
        obtain ⟨hsource, hend⟩ := straight_target hordered hout houtDown hdirectory h
        obtain ⟨hother, hend'⟩ := straight_target hordered hout houtDown hdirectory h'
        have hnames := Output.names_of_names_temporary hsource hend hother hend' heq
        exact hne (eq_of_names_target hordered hdirectory h h' (hnames ▸ List.prefix_refl _)) } }

end Straight

private theorem sources_of_file (hnode : disk.node job.root = .ok (.file contents)) :
    job.sources disk = [] ∨ job.sources disk = [job.root] := by
  by_cases hnil : job.sources disk = []
  · exact .inl hnil
  · obtain ⟨source, hsource⟩ := List.exists_mem_of_ne_nil _ hnil
    obtain ⟨node, hnode', hfound⟩ := exists_node_of_mem_found hsource
    obtain rfl := Except.ok.inj (hnode.symm.trans hnode')
    rw [sources, hfound]
    exact Node.behaviorFiles_file job.root job.outDir contents

private theorem isReady_sources (hordered : disk.top.Ordered)
    (hspread : job.IsSpread (job.sources disk)) (h : source ∈ job.sources disk) :
    IsReady (job.sources disk) disk := by
  have hheld : ∀ file ∈ job.sources disk, ∃ contents, disk.view file.names = some (some contents) := by
    intro file hfile
    rw [← Disk.place_of_straight disk (hspread.straight file hfile).1]
    exact (job.isSourceList_sources hordered).held file hfile
  obtain ⟨contents, hcontents⟩ := hheld source h
  obtain ⟨names, name, hnames⟩ := (hspread.straight source h).2.exists_names
  exact {
    ordered := hordered
    top := Disk.view_above (show disk.view source.names ≠ none by simp [hcontents]) List.nil_prefix
      (by simp [hnames])
    held := hheld }

/-- Between straight directories, of which the output directory does not hold the root, all outputs
go to different places. When no file beside an output lies on the way to another output, each step
comes to what it comes to alone, and the disk is the same in the end, in whatever order the steps are
taken. -/
theorem steps_eq_of_perm (job : Job) {disk : Disk} (hordered : disk.top.Ordered)
    (hroot : job.root.isAbsolute = true) (hrootDown : Path.Component.up ∉ job.root.components)
    (hout : job.outDir.isAbsolute = true) (houtDown : Path.Component.up ∉ job.outDir.components)
    (hstart : ¬ job.outDir.components <+: job.root.components) :
    ((job.sources disk).map fun source => disk.place (job.target source)).Nodup ∧
      ((∀ source ∈ job.sources disk, ∀ other ∈ job.sources disk,
        ¬ disk.place (Output.temporary (job.target source) job.runNumber) <+:
          disk.place (job.target other)) →
      ∀ order : List Path, order.Perm (job.sources disk) →
        (job.steps order disk).1 = order.map (fun source => (source, (job.step source disk).1)) ∧
          (job.steps order disk).2 = (job.steps (job.sources disk) disk).2) := by
  have hlist := job.isSourceList_sources hordered
  refine ⟨List.Nodup.map_on hlist.apart hlist.nodup, fun hclear order hperm => ?_⟩
  by_cases hfile : ∃ contents, disk.node job.root = .ok (.file contents)
  · obtain ⟨contents, hnode⟩ := hfile
    obtain hnil | hone := sources_of_file hnode
    · rw [hnil] at hperm ⊢
      obtain rfl := hperm.eq_nil
      exact ⟨rfl, rfl⟩
    · rw [hone] at hperm ⊢
      obtain rfl := List.perm_singleton.mp hperm
      exact ⟨rfl, rfl⟩
  · have hspread := isSpread_sources hordered hroot hrootDown hout houtDown
      (fun contents hnode => hfile ⟨contents, hnode⟩) hstart hclear
    have hnodup : order.Nodup := hperm.nodup_iff.mpr hlist.nodup
    cases order with
    | nil =>
      rw [← hperm.nil_eq]
      exact ⟨rfl, rfl⟩
    | cons first rest =>
      have hready := isReady_sources hordered hspread (hperm.subset List.mem_cons_self)
      exact ⟨steps_results hspread hready hperm.subset hnodup,
        steps_perm hspread hready hperm hperm.subset hnodup⟩

/-- A directory `src` with two modules, one of them in a directory whose name is that of the file
beside the output of the other in run 7. -/
def crossedDisk : Disk :=
  ⟨.directory (.entry "src".toList (.directory (.entry ".a.behavior.js.tmp.7".toList
    (.directory (.entry "b.behavior.js".toList (.file []) .empty)) (.entry "a.behavior.js".toList
      (.file []) .empty))) .empty), []⟩

theorem ordered_crossedDisk : crossedDisk.top.Ordered := by
  simp only [crossedDisk, Node.Ordered, Entries.Ordered]
  decide

/-- In run 8 both orders come to the same. -/
theorem steps_eq_crossed :
    let job : Job := ⟨8, .ofString "/", .ofString "/src", .ofString "/dist", ⟨false⟩⟩
    let a : Path := .ofString "/src/a.behavior.js"
    let b : Path := .ofString "/src/.a.behavior.js.tmp.7/b.behavior.js"
    job.sources crossedDisk = [b, a] ∧
      (job.steps [a, b] crossedDisk).2 = (job.steps [b, a] crossedDisk).2 := by
  intro job a b
  have hsources : job.sources crossedDisk = [b, a] := by decide +kernel
  have hclear : ∀ source ∈ job.sources crossedDisk, ∀ other ∈ job.sources crossedDisk,
      ¬ crossedDisk.place (Output.temporary (job.target source) job.runNumber) <+:
        crossedDisk.place (job.target other) := by
    rw [hsources]
    decide +kernel
  have hsame := (steps_eq_of_perm job ordered_crossedDisk (by decide) (by decide) (by decide)
    (by decide) (by decide)).2 hclear [a, b] (hsources ▸ List.Perm.swap b a [])
  rw [hsources] at hsame
  exact ⟨hsources, hsame.2⟩

/-- In run 7 the module in the directory makes a directory of the file beside the other output. When
it comes first the other module is not built, and when it comes last both are. -/
theorem steps_ne_crossed :
    let job : Job := ⟨7, .ofString "/", .ofString "/src", .ofString "/dist", ⟨false⟩⟩
    let a : Path := .ofString "/src/a.behavior.js"
    let b : Path := .ofString "/src/.a.behavior.js.tmp.7/b.behavior.js"
    crossedDisk.top.Ordered ∧ job.root.isAbsolute = true ∧ job.outDir.isAbsolute = true ∧
      Path.Component.up ∉ job.root.components ∧ Path.Component.up ∉ job.outDir.components ∧
      ¬ job.outDir.components <+: job.root.components ∧
      job.sources crossedDisk = [b, a] ∧
      (a, .error (.disk .isADirectory)) ∈ (job.steps [b, a] crossedDisk).1 ∧
      (a, .ok (job.record a [])) ∈ (job.steps [a, b] crossedDisk).1 ∧
      (job.steps [b, a] crossedDisk).2.held? (job.target a) = none ∧
      (job.steps [a, b] crossedDisk).2.held? (job.target a) = some (some []) := by
  intro job a b
  refine ⟨ordered_crossedDisk, by decide, by decide, by decide, by decide, by decide, ?_, ?_, ?_, ?_,
    ?_⟩ <;> decide +kernel

end BehaviorRegistrar.Command.Build.Job
