import BehaviorRegistrar.Command.Transform
import BehaviorRegistrar.Proofs.Build.Preservation
import Mathlib.Data.List.Forall2

/-!
# What a build that succeeds has written

When no output goes to the place of a source, every source is as it was when its step comes to it,
and its output is left alone from then on. So a build that succeeds leaves each source registered as
the library registers it, which is also what the command for a single module prints, and it reports
one record for each source in their order.
-/

namespace BehaviorRegistrar.Command.Build

variable {root outDir file : Path} {disk other : Disk} {contents bytes : Contents}

theorem read_of_mem_found (hordered : disk.top.Ordered) (h : file ∈ found root outDir disk)
    (hheld : disk.held? file = some (some contents))
    (hread : other.read file = .ok bytes) : disk.read file = .ok contents := by
  obtain ⟨node, hnode, hfound⟩ := exists_node_of_mem_found h
  rw [hfound] at h
  obtain ⟨names, -, hnames, rfl, -⟩ := Node.exists_of_mem_behaviorFiles
    (Node.ordered_of_at? hordered (Disk.at?_place_of_node hnode)) h
  obtain ⟨hlong, hspelling, hfollow, -⟩ := Disk.read_eq_ok_iff.mp hread
  have hplace := Disk.place_descend disk root hnames
  have hstart : disk.start (root.descend names) = disk.start root := by
    rw [Disk.start, Disk.start, Path.isAbsolute_descend root hnames]
  refine Disk.read_eq_ok_iff.mpr ⟨hlong, hspelling, ?_, hheld⟩
  rw [hplace, hstart]
  refine Disk.followAll_descend hnames (fun name hname => ?_) (Disk.followAll_of_node hnode) ?_
  · obtain ⟨front, hparts, -⟩ := Path.exists_parts_descend root (List.ne_nil_of_mem hname) hnames
    rw [hparts] at hfollow
    exact Disk.byteLength_le_of_followAll hfollow (List.mem_append_right front hname)
      (hnames name hname)
  · rw [← hplace, ← Disk.held?_eq_view, hheld]
    simp

theorem isBehaviorModule_eq {skip : Path → Bool} {node : Node} {visited : Path × Node}
    (hordered : disk.top.Ordered) (hnode : disk.node root = .ok node)
    (hvisited : visited ∈ node.walk skip root) (hfile : visited.2.isDirectory = false) :
    isBehaviorModule visited = ModuleId.isBehaviorFile visited.1.text := by
  obtain ⟨names, hnames, hpath, hat, -⟩ := Node.exists_of_mem_walk
    (Node.ordered_of_at? hordered (Disk.at?_place_of_node hnode)) hvisited
  obtain ⟨path, found⟩ := visited
  cases found with
  | directory entries => cases hfile
  | file contents =>
    dsimp only at hpath hat
    subst hpath
    obtain ⟨front, -, name, hspelling, hfront, hname, -⟩ := exists_spelling_of_file hnode hnames hat
    obtain ⟨hfileName, hrouted⟩ := ModuleId.isBehaviorFile_of_spelling hspelling hfront hname
    simp only [isBehaviorModule, hfileName, Option.getD_some, hrouted]

theorem collect_eq_ok {results : Results} {built : List BuiltFile} (h : collect results = .ok built) :
    List.Forall₂ (fun result record => result.2 = .ok record) results built := by
  fun_induction collect results generalizing built with
  | case1 =>
    obtain rfl := Except.ok.inj h
    exact .nil
  | case2 => cases h
  | case3 path record rest ih =>
    cases hrest : collect rest with
    | error error =>
      rw [hrest] at h
      cases h
    | ok records =>
      rw [hrest] at h
      obtain rfl := Except.ok.inj h
      exact .cons rfl (ih hrest)

namespace Job

variable {job : Job} {source : Path}

def report (job : Job) (json : Bool) (built : List BuiltFile) : String :=
  if json then
    line (BuildResult.toJson ⟨job.root, job.outDir, job.options.hotReload, built, 0, none⟩)
  else String.join (built.map BuiltFile.line)

/-- A step that succeeds has read its source and put the output where it can be read. -/
theorem step_ok (job : Job) (hsource : ModuleId.isBehaviorFile source.text)
    (hordered : disk.top.Ordered) {built : BuiltFile} {after : Disk}
    (h : job.step source disk = (.ok built, after)) :
    ∃ contents, disk.read source = .ok contents ∧ built = job.record source contents ∧
      after.read (job.target source) = .ok (job.output source contents) := by
  cases hread : disk.read source with
  | error fault =>
    rw [step_of_refused hread] at h
    cases h
  | ok contents =>
    rw [step_of_read hsource hread] at h
    generalize hwritten : (Output.write job.runNumber (job.target source)
      (Loader.standard.transformWith (Text.decode contents) source.text job.options) :
        OnDisk (Except DiskFault Unit)) disk = written at h
    obtain ⟨fault | _, final⟩ := written
    · cases h
    · obtain ⟨hbuilt, rfl⟩ := Prod.mk.inj h
      exact ⟨contents, rfl, (Except.ok.inj hbuilt).symm, Output.read_of_write hordered hwritten⟩

theorem steps_sources (job : Job) (sources : List Path) (disk : Disk) :
    (job.steps sources disk).1.map Prod.fst = sources := by
  induction sources generalizing disk with
  | nil => rfl
  | cons source rest ih => rw [steps_cons, List.map_cons, ih]

theorem isMarked_target (hordered : disk.top.Ordered) (h : source ∈ job.sources disk)
    (hread : other.read (job.target source) = .ok bytes) :
    IsMarked (disk.place (job.target source)) := by
  obtain ⟨names, hsource, hplace, htarget⟩ := exists_names_of_mem_found hordered h
  obtain ⟨front, last, hfront, hlast⟩ := (job.isSourceList_sources hordered).marked source h
  obtain rfl | ⟨init, name, rfl⟩ := List.eq_nil_or_concat names
  · obtain ⟨before, name, -, hspelling, -, hname, -⟩ :=
      Disk.exists_name_of_file (Disk.node_of_read hread)
    have hbelow := Path.below?_descend job.root
      (show ∀ name ∈ ([] : Location), IsEntryName name by simp)
    rw [target, outfile, hsource, hbelow, Option.getD_some] at hspelling
    obtain hend | hend := Path.spelling_join_nil job.outDir
    · exact absurd (List.append_eq_nil_iff.mp (hspelling.symm.trans hend)).2 hname.1
    · have hslash : name.getLast? = some '/' := by
        rw [← List.getLast?_append_of_ne_nil before hname.1, ← hspelling]
        exact hend
      exact absurd (List.mem_of_getLast? hslash) hname.2.2.2
  · rw [hplace, List.concat_eq_append, ← List.append_assoc] at hfront
    obtain rfl : name = last := List.head_eq_of_cons_eq (List.append_inj' hfront rfl).2
    exact ⟨disk.place job.outDir ++ init, name, by simp [target, htarget], hlast⟩

/-- Steps whose outputs keep off a source leave it as it is. -/
private theorem held?_steps_source (hordered : disk.top.Ordered) {first : List Path}
    (hfirst : first ⊆ job.sources disk) (hsource : source ∈ job.sources disk)
    (hapart : ∀ other ∈ first, disk.place (job.target other) ≠ disk.place source)
    (hheld : disk.held? source = some (some contents)) :
    (job.steps first disk).2.held? source = some (some contents) := by
  have hlist := job.isSourceList_sources hordered
  rw [Disk.held?, Disk.place_congr (job.growth_steps first disk hordered).here]
  exact job.held?_steps (fun other hother => hlist.behavior other (hfirst hother))
    (hlist.marked source hsource) hheld fun other hother hput => hapart other hother hput.2

/-- An output that is there stays there while other sources are built. -/
private theorem read_steps_target (hordered : disk.top.Ordered) {now : Disk}
    (hnow : Disk.Grows disk now) (hsource : source ∈ job.sources disk) {rest : List Path}
    (hrest : rest ⊆ job.sources disk) (hnot : source ∉ rest)
    (hread : now.read (job.target source) = .ok bytes) :
    (job.steps rest now).2.read (job.target source) = .ok bytes := by
  have hlist := job.isSourceList_sources hordered
  have hafter := job.growth_steps rest now hnow.ordered
  have hheld := Disk.held?_of_read hread
  rw [Disk.held?, Disk.place_congr hnow.here] at hheld
  refine Disk.read_of_grows hread hafter ?_
  rw [Disk.held?, Disk.place_congr (hafter.here.trans hnow.here)]
  refine job.held?_steps (fun later hlater => hlist.behavior later (hrest hlater))
    (job.isMarked_target hordered hsource hread) hheld fun later hlater hput => ?_
  obtain ⟨-, hplace⟩ := (PutAt.congr hnow.here).mp hput
  exact hnot (hlist.apart later (hrest hlater) source hsource hplace ▸ hlater)

/-- A module that is built among the sources leaves the output of what it held at the start, when no
output goes to the place of a source. -/
theorem steps_ok (job : Job) (hordered : disk.top.Ordered)
    (hapart : ∀ source ∈ job.sources disk, ∀ file ∈ job.sources disk,
      disk.place (job.target source) ≠ disk.place file) {built : BuiltFile}
    (h : (source, .ok built) ∈ (job.steps (job.sources disk) disk).1) :
    ∃ contents, disk.read source = .ok contents ∧ built = job.record source contents ∧
      (job.steps (job.sources disk) disk).2.read (job.target source) =
        .ok (job.output source contents) := by
  have hlist := job.isSourceList_sources hordered
  obtain ⟨first, rest, hsplit, hstep⟩ := exists_step_of_mem h
  have hsource : source ∈ job.sources disk := by simp [hsplit]
  have hfirst : first ⊆ job.sources disk := by simp [hsplit]
  have hrest : rest ⊆ job.sources disk := fun later hlater => by simp [hsplit, hlater]
  have hnot : source ∉ rest := by
    have hnodup := hlist.nodup
    rw [hsplit] at hnodup
    exact (List.nodup_cons.mp (List.nodup_append.mp hnodup).2.1).1
  obtain ⟨contents, hheld⟩ := hlist.held source hsource
  have hunchanged := held?_steps_source hordered hfirst hsource
    (fun other hother => hapart other (hfirst hother) source hsource) hheld
  have hbefore : Disk.Grows disk (job.steps first disk).2 := job.growth_steps first disk hordered
  generalize hnow : (job.steps first disk).2 = now at hbefore hunchanged hstep
  obtain ⟨bytes, hread, hbuilt, hout⟩ :=
    job.step_ok (hlist.behavior source hsource) hbefore.ordered (Prod.ext hstep rfl)
  obtain rfl : bytes = contents := by simpa [hunchanged] using (Disk.held?_of_read hread).symm
  refine ⟨bytes, read_of_mem_found hordered hsource hheld hread, hbuilt, ?_⟩
  have hstepped := hbefore.trans (job.growth_step source now hbefore.ordered)
  rw [hsplit, steps_append, hnow, steps_cons]
  exact read_steps_target hordered hstepped hsource hrest hnot hout

theorem run_success (job : Job) (json : Bool) (h : (job.run json disk).1.status = 0) :
    ∃ built log, collect (job.steps (job.sources disk) disk).1 = .ok built ∧
      (job.run json disk).2 = (job.steps (job.sources disk) disk).2 ∧
      (job.run json disk).1 = .success (job.report json built) log := by
  have hends := job.ends_run json disk
  generalize (job.run json disk).1 = outcome, (job.run json disk).2 = after at h hends ⊢
  cases hends with
  | inPlace hsame => cases json <;> cases h
  | unwalked hsame hsearch => cases h
  | failed log hsame hsearch hcollect => cases json <;> cases h
  | @built files records log hsame hsearch hcollect =>
    have hsources : job.sources disk = files := by rw [sources_eq_search, hsearch]; rfl
    rw [hsources]
    refine ⟨records, log, hcollect, rfl, ?_⟩
    cases json <;> rfl

/-- Whether a source was registered as the library and the command for one module register it, and
put where its record says. -/
structure IsBuilt (job : Job) (before after : Disk) (source : Path) (contents : Contents)
    (text : String) (built : BuiltFile) : Prop where
  read : before.read source = .ok contents
  library : ∀ raw, Options.ofValue raw = .ok job.options →
    Loader.standard.transform (Text.decode contents) source.text raw = .ok text
  plugin : ∀ cwd, (Plugin.behaviors job.options).transform (Text.decode contents) source.text cwd =
    .ok (some text)
  command : ∀ runNumber, ∃ log,
    (Transform.run false runNumber ⟨source, none, .ok job.options⟩ : OnDisk Outcome) before =
      (.success text log, before)
  below : job.root.below? source = some built.file
  outfile : built.outfile = job.outDir.join built.file
  written : after.read built.outfile = .ok (Text.encode text)
  name : built.name = ModuleId.moduleName source.text
  size : built.size = (Text.encode text).length

theorem isBuilt_record {after : Disk} (hordered : disk.top.Ordered) (h : source ∈ job.sources disk)
    (hread : disk.read source = .ok contents)
    (hout : after.read (job.target source) = .ok (job.output source contents)) :
    job.IsBuilt disk after source contents
      (Loader.standard.transformWith (Text.decode contents) source.text job.options)
      (job.record source contents) where
  read := hread
  library raw hraw := by rw [Loader.transform, hraw]; rfl
  plugin cwd := by simp [Plugin.behaviors, (job.isSourceList_sources hordered).behavior source h]
  command runNumber := by
    rw [Transform.run]
    dsimp only
    rw [OnDisk.bind_apply, Output.readSource, OnDisk.bind_apply]
    simp only [Host.readFile, hread]
    exact ⟨_, rfl⟩
  below := by
    obtain ⟨node, hnode, hfound⟩ := exists_node_of_mem_found h
    rw [sources, hfound] at h
    obtain ⟨names, -, hnames, rfl, -⟩ := Node.exists_of_mem_behaviorFiles
      (Node.ordered_of_at? hordered (Disk.at?_place_of_node hnode)) h
    rw [record, Path.below?_descend job.root hnames, Option.getD_some]
  outfile := rfl
  written := hout
  name := rfl
  size := rfl

/-- When no output of a build goes to the place of a source, a build that succeeds has registered
every source as the library and the command for one module do, and reports a record of each, in the
order in which they were found. The walk takes the same files for behavior files as the plugin. -/
theorem isBuilt_of_success (job : Job) (json : Bool) {disk : Disk} (hordered : disk.top.Ordered)
    (hapart : ∀ source ∈ job.sources disk, ∀ file ∈ job.sources disk,
      disk.place (job.target source) ≠ disk.place file)
    (hstatus : (job.run json disk).1.status = 0) :
    (∃ built log, (job.run json disk).1 = .success (job.report json built) log ∧
      List.Forall₂
        (fun source record => ∃ contents text,
          job.IsBuilt disk (job.run json disk).2 source contents text record)
        (job.sources disk) built) ∧
    ∀ node, disk.node job.root = .ok node → ∀ skip, ∀ visited ∈ node.walk skip job.root,
      visited.2.isDirectory = false →
        isBehaviorModule visited = ModuleId.isBehaviorFile visited.1.text := by
  refine ⟨?_, fun node hnode skip visited hvisited hfile =>
    isBehaviorModule_eq hordered hnode hvisited hfile⟩
  obtain ⟨built, log, hcollect, hafter, hrun⟩ := run_success job json hstatus
  refine ⟨built, log, hrun, ?_⟩
  rw [hafter]
  have hresults : List.Forall₂
      (fun result record => result ∈ (job.steps (job.sources disk) disk).1 ∧ result.2 = .ok record)
      (job.steps (job.sources disk) disk).1 built :=
    (List.forall₂_and_left ..).mpr ⟨fun _ h => h, collect_eq_ok hcollect⟩
  have hsources := job.steps_sources (job.sources disk) disk
  generalize hsteps : job.steps (job.sources disk) disk = results at hresults hsources ⊢
  rw [← hsources, List.forall₂_map_left_iff]
  refine hresults.imp fun result record hresult => ?_
  obtain ⟨hmem, hrecord⟩ := hresult
  obtain ⟨source, outcome⟩ := result
  obtain rfl : outcome = .ok record := hrecord
  have hsource : source ∈ job.sources disk := by
    rw [← hsources]
    exact List.mem_map.mpr ⟨_, hmem, rfl⟩
  obtain ⟨contents, hread, rfl, hout⟩ := job.steps_ok hordered hapart (hsteps ▸ hmem)
  rw [hsteps] at hout
  exact ⟨contents, _, isBuilt_record hordered hsource hread hout⟩

/-- The build of `src` into `dist` registers the module. -/
theorem isBuilt_menu :
    let job : Job := ⟨1, .ofString "/", .ofString "/src", .ofString "/dist", ⟨false⟩⟩
    job.sources menuDisk = [.ofString "/src/menu.behavior.js"] ∧
      (job.run true menuDisk).1.status = 0 ∧
      ∃ built contents text, job.IsBuilt menuDisk (job.run true menuDisk).2
        (.ofString "/src/menu.behavior.js") contents text built := by
  intro job
  have hsources : job.sources menuDisk = [.ofString "/src/menu.behavior.js"] := by decide +kernel
  have hstatus : (job.run true menuDisk).1.status = 0 := by decide +kernel
  have hapart : ∀ source ∈ job.sources menuDisk, ∀ file ∈ job.sources menuDisk,
      menuDisk.place (job.target source) ≠ menuDisk.place file := by
    rw [hsources]
    decide
  obtain ⟨⟨built, log, -, hbuilt⟩, -⟩ :=
    isBuilt_of_success job true ordered_menuDisk hapart hstatus
  rw [hsources] at hbuilt
  obtain ⟨record, -, ⟨contents, text, hrecord⟩, -, -⟩ := List.forall₂_cons_left_iff.mp hbuilt
  exact ⟨hsources, hstatus, record, contents, text, hrecord⟩

end Job

end BehaviorRegistrar.Command.Build
