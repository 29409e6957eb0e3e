import BehaviorRegistrar.Proofs.Build.Outputs
import BehaviorRegistrar.Proofs.Wholeness

/-!
# Where a build puts its outputs

A file that is found below a directory goes by the components of the directory and by names behind
them, however the directory is spelled. Its output goes by the same names behind the components of the
output directory. So the path relative to the root is never missing, and a file that a build makes or
changes is always where the relative path of a found file leads from the output directory. A file that
is gone after a build stood where an output was written at first.
-/

namespace BehaviorRegistrar.Command.Build

variable {root outDir file relative : Path} {disk : Disk} {names location : Location}
  {contents : Contents}

/-- Whether a file stands below a root by names, and its output below the output directory by the same
names. -/
structure IsPlaced (root outDir file relative : Path) (names : Location) : Prop where
  below : root.below? file = some relative
  nonempty : names ≠ []
  plain : ∀ name ∈ names, IsEntryName name
  components : relative.components = names.map .name
  joined : (root.join relative).same file
  outfile : outfile root outDir file = outDir.join relative
  inside : (outDir.join relative).components = outDir.components ++ names.map .name

theorem isPlaced_descend (root outDir : Path) (hne : names ≠ [])
    (h : ∀ name ∈ names, IsEntryName name) :
    IsPlaced root outDir (root.descend names) ⟨Path.spell (names.map .name)⟩ names where
  below := Path.below?_descend root h
  nonempty := hne
  plain := h
  components := Path.components_spell hne h
  joined := by
    rw [Path.same, Path.components_join_spell root hne h, Path.components_descend root h]
    exact beq_self_eq_true _
  outfile := by rw [Build.outfile, Path.below?_descend root h, Option.getD_some]
  inside := Path.components_join_spell outDir hne h

theorem exists_isPlaced (hordered : disk.top.Ordered)
    (hroot : disk.view (disk.place root) = some none) (h : file ∈ found root outDir disk) :
    ∃ relative names, IsPlaced root outDir file relative names := by
  obtain ⟨node, hnode, hfound⟩ := exists_node_of_mem_found h
  rw [hfound] at h
  obtain ⟨names, contents, hnames, rfl, hat, -⟩ :=
    Node.exists_of_mem_behaviorFiles (ordered_of_node hordered hnode) h
  refine ⟨_, names, isPlaced_descend root outDir ?_ hnames⟩
  rintro rfl
  have hview := view_below_root hnode []
  rw [List.append_nil, hroot, Node.held?, hat] at hview
  cases hview

namespace Job

variable {job : Job} {source : Path}

theorem file_of_step (hordered : disk.top.Ordered) (hsource : ModuleId.isBehaviorFile source.text)
    (hfile : (job.step source disk).2.view location = some (some contents)) :
    disk.view location = some (some contents) ∨
      (∃ built, (job.step source disk).1 = .ok built) ∧
        disk.place (job.target source) = location := by
  cases hread : disk.read source with
  | error fault =>
    rw [step_of_refused hread] at hfile
    exact .inl hfile
  | ok bytes =>
    rw [step_of_read hsource hread] at hfile ⊢
    rcases hwritten : (Output.write job.runNumber (job.target source)
      (Loader.standard.transformWith (Text.decode bytes) source.text job.options) :
        OnDisk (Except DiskFault Unit)) disk with ⟨fault | _, after⟩ <;> rw [hwritten] at hfile
    · exact (Output.file_of_write hordered hwritten hfile).imp_right fun hlocation => nomatch hlocation.1
    · exact (Output.file_of_write hordered hwritten hfile).imp_right fun hlocation =>
        ⟨⟨_, rfl⟩, hlocation.2.symm⟩

/-- Steps make or change no files but their outputs. -/
theorem file_of_steps (hordered : disk.top.Ordered) {sources : List Path}
    (hsources : ∀ source ∈ sources, ModuleId.isBehaviorFile source.text)
    (hfile : (job.steps sources disk).2.view location = some (some contents)) :
    disk.view location = some (some contents) ∨
      ∃ source ∈ sources, job.PutAt disk (job.steps sources disk).1 source location := by
  induction sources generalizing disk with
  | nil => exact .inl hfile
  | cons first rest ih =>
    have hfirst := hsources first List.mem_cons_self
    have hgrows := job.growth_step first disk hordered
    rw [steps_cons] at hfile ⊢
    obtain hbefore | ⟨source, hsource, hput⟩ :=
      ih hgrows.ordered (fun source h => hsources source (List.mem_cons_of_mem first h)) hfile
    · refine (file_of_step hordered hfirst hbefore).imp_right ?_
      rintro ⟨⟨built, hbuilt⟩, hplace⟩
      exact ⟨first, List.mem_cons_self, ⟨built, by simp [hbuilt]⟩, hplace⟩
    · obtain ⟨⟨built, hbuilt⟩, hplace⟩ := (PutAt.congr hgrows.here).mp hput
      exact .inr ⟨source, List.mem_cons_of_mem first hsource,
        ⟨built, List.mem_cons_of_mem _ hbuilt⟩, hplace⟩

theorem locate_of_putAt (hordered : disk.top.Ordered) {sources : List Path}
    (hsources : ∀ source ∈ sources, ModuleId.isBehaviorFile source.text)
    (hput : job.PutAt disk (job.steps sources disk).1 source location)
    (hview : (job.steps sources disk).2.view location ≠ none) :
    (job.steps sources disk).2.locate (job.target source) = .ok location := by
  obtain ⟨⟨built, hbuilt⟩, rfl⟩ := hput
  obtain ⟨first, rest, rfl, hstep⟩ := exists_step_of_mem hbuilt
  have hbefore : Disk.Grows disk (job.steps first disk).2 := job.growth_steps first disk hordered
  rw [steps_append, steps_cons] at hview ⊢
  dsimp only at hview ⊢
  generalize (job.steps first disk).2 = now at hbefore hstep hview ⊢
  have hown := job.growth_step source now hbefore.ordered
  rcases hwritten : job.step source now with ⟨result, written⟩
  rw [hwritten] at hown hstep hview
  obtain rfl : result = .ok built := hstep
  obtain ⟨bytes, -, -, hread⟩ := job.step_ok (hsources source (by simp)) hbefore.ordered hwritten
  have hafter := job.growth_steps rest written hown.ordered
  obtain ⟨-, hspelling, hfollow, -⟩ := Disk.read_eq_ok_iff.mp hread
  have hplace := Disk.place_congr (hown.here.trans hbefore.here) (job.target source)
  have hstart : (job.steps rest written).2.start (job.target source) =
      written.start (job.target source) := by
    rw [Disk.start, Disk.start, hafter.here]
  rw [Disk.locate, if_neg hspelling, hstart]
  rw [hplace] at hfollow
  exact Disk.followAll_of_grows hfollow hafter.directories hview

/-- A build makes or changes no file but the outputs of what it found. -/
theorem file_of_run (job : Job) (json : Bool) (hordered : disk.top.Ordered)
    (hfile : (job.run json disk).2.view location = some (some contents)) :
    disk.view location = some (some contents) ∨
      ∃ source ∈ job.sources disk, (job.run json disk).2.locate (job.target source) = .ok location := by
  have hlist := job.isSourceList_sources hordered
  rw [run_disk, modules] at hfile ⊢
  split at hfile
  · exact .inl hfile
  · rename_i hsame
    rw [if_neg hsame]
    refine (file_of_steps hordered hlist.behavior hfile).imp_right ?_
    rintro ⟨source, hsource, hput⟩
    exact ⟨source, hsource, locate_of_putAt hordered hlist.behavior hput (by simp [hfile])⟩

theorem gone_of_step (hsource : ModuleId.isBehaviorFile source.text)
    (hfile : disk.view location = some (some contents)) :
    (∃ now, (job.step source disk).2.view location = some (some now)) ∨
      location = disk.place (Output.temporary (job.target source) job.runNumber) := by
  by_cases hbeside : location = disk.place (Output.temporary (job.target source) job.runNumber)
  · exact .inr hbeside
  · have hspec := job.step_spec hsource disk
    generalize job.step source disk = stepped at hspec ⊢
    obtain ⟨error | built, after⟩ := stepped
    · exact .inl ⟨contents, hspec.held location contents (by simpa using hbeside) hfile⟩
    · obtain ⟨hkeeps, bytes, -, hheld⟩ := hspec
      by_cases htarget : location = disk.place (job.target source)
      · rw [Disk.held?_eq_view, Disk.place_congr hkeeps.here, ← htarget] at hheld
        exact .inl ⟨_, hheld⟩
      · exact .inl ⟨contents, hkeeps.held location contents (by simp [hbeside, htarget]) hfile⟩

theorem gone_of_steps {sources : List Path} (hordered : disk.top.Ordered)
    (hsources : ∀ source ∈ sources, ModuleId.isBehaviorFile source.text)
    (hfile : disk.view location = some (some contents)) :
    (∃ now, (job.steps sources disk).2.view location = some (some now)) ∨
      ∃ source ∈ sources,
        location = disk.place (Output.temporary (job.target source) job.runNumber) := by
  induction sources generalizing disk contents with
  | nil => exact .inl ⟨contents, hfile⟩
  | cons first rest ih =>
    have hgrows := job.growth_step first disk hordered
    rw [steps_cons]
    obtain ⟨now, hnow⟩ | hgone := gone_of_step (hsources first List.mem_cons_self) hfile
    · refine (ih hgrows.ordered (fun source h => hsources source (List.mem_cons_of_mem first h))
        hnow).imp_right ?_
      rintro ⟨source, hsource, hgone⟩
      rw [Disk.place_congr hgrows.here] at hgone
      exact ⟨source, List.mem_cons_of_mem first hsource, hgone⟩
    · exact .inr ⟨first, List.mem_cons_self, hgone⟩

/-- A file that a build removes stood at the place where an output was written at first. -/
theorem gone_of_run (job : Job) (json : Bool) (hordered : disk.top.Ordered)
    (hfile : disk.view location = some (some contents))
    (hgone : ∀ now, (job.run json disk).2.view location ≠ some (some now)) :
    ∃ source ∈ job.sources disk,
      location = disk.place (Output.temporary (job.target source) job.runNumber) := by
  rw [run_disk, modules] at hgone
  split at hgone
  · exact absurd hfile (hgone contents)
  · refine (gone_of_steps hordered (job.isSourceList_sources hordered).behavior hfile).resolve_left ?_
    rintro ⟨now, hnow⟩
    exact hgone now hnow

end Job

/-- Every file that is found below a directory, in whatever way the directory is spelled, goes by names
behind it, and its output by the same names behind the output directory. After a build every file that
is new or holds other bytes than before is where such a path of an output leads. -/
theorem run_places (json : Bool) (runNumber : Nat) (cwd : Path) (request : BuildRequest)
    {disk : Disk} (hordered : disk.top.Ordered)
    (hroot : disk.view (disk.place request.root) = some none) :
    let after := ((run json runNumber cwd request : OnDisk Outcome) disk).2
    (∀ file ∈ found request.root request.outDir disk, ∃ relative names,
      IsPlaced request.root request.outDir file relative names) ∧
    ∀ location contents, after.view location = some (some contents) →
      disk.view location ≠ some (some contents) →
        ∃ file ∈ found request.root request.outDir disk, ∃ relative,
          request.root.below? file = some relative ∧
            after.locate (request.outDir.join relative) = .ok location := by
  obtain ⟨root, outDir, options⟩ := request
  intro after
  have hplaced : ∀ file ∈ found root outDir disk, ∃ relative names,
      IsPlaced root outDir file relative names := fun file => exists_isPlaced hordered hroot
  refine ⟨hplaced, fun location contents hfile hchanged => ?_⟩
  cases options with
  | error error =>
    have hafter : after = disk := congrArg Prod.snd (run_refused json runNumber cwd disk)
    rw [hafter] at hfile
    exact absurd hfile hchanged
  | ok options =>
    let job : Job := ⟨runNumber, cwd, root, outDir, options⟩
    obtain hbefore | ⟨file, hmem, hlocate⟩ := job.file_of_run json hordered hfile
    · exact absurd hbefore hchanged
    · obtain ⟨relative, names, hrelative⟩ := hplaced file hmem
      rw [Job.target, hrelative.outfile] at hlocate
      exact ⟨file, hmem, relative, hrelative.below, hlocate⟩

/-- The module in `src`, which is spelled with a `.`, a `..` and two slashes, is built into `dist`. -/
theorem run_places_menu :
    let request : BuildRequest := ⟨.ofString "/src/.//../src/", .ofString "/dist", .ok ⟨false⟩⟩
    let disk := Job.menuDisk
    let after := ((run false 1 (.ofString "/") request : OnDisk Outcome) disk).2
    let location : Location := ["dist".toList, "menu.behavior.js".toList]
    disk.top.Ordered ∧ disk.view (disk.place request.root) = some none ∧
      found request.root request.outDir disk = [.ofString "/src/.//../src/menu.behavior.js"] ∧
      disk.view location = none ∧
      ∃ relative names, IsPlaced request.root request.outDir
          (.ofString "/src/.//../src/menu.behavior.js") relative names ∧
        after.locate (request.outDir.join relative) = .ok location := by
  intro request disk after location
  have hroot : disk.view (disk.place request.root) = some none := by decide +kernel
  have hfound : found request.root request.outDir disk =
      [.ofString "/src/.//../src/menu.behavior.js"] := by decide +kernel
  have hnone : disk.view location = none := by decide +kernel
  have hfile : after.view location =
      some (some (Text.encode "window.Drupal.behaviors.menu = \x7b\n\x7d")) := by decide +kernel
  have hchanged : ∀ contents, disk.view location ≠ some (some contents) := by simp [hnone]
  obtain ⟨hplaced, hnew⟩ :=
    run_places false 1 (.ofString "/") request Job.ordered_menuDisk hroot
  obtain ⟨file, hmem, relative, hbelow, hlocate⟩ := hnew location _ hfile (hchanged _)
  obtain ⟨own, names, hown⟩ := hplaced file hmem
  obtain rfl : own = relative := Option.some.inj (hown.below.symm.trans hbelow)
  rw [hfound, List.mem_singleton] at hmem
  exact ⟨Job.ordered_menuDisk, hroot, hfound, hnone, own, names, hmem ▸ hown, hlocate⟩

end BehaviorRegistrar.Command.Build
