import BehaviorRegistrar.Proofs.Endings

/-!
# Which sources a build leaves as they are

A build writes to a source only when the output of some source goes to the place of that source, in
whatever way the two directories are spelled. No two outputs go to one place, so such a source ends up
with that output, and it is left as it is exactly when it held the output before.
-/

namespace BehaviorRegistrar.Command.Build.Job

variable {job : Job} {source : Path} {disk : Disk} {location : Location} {contents : Contents}

def IsMarked (location : Location) : Prop :=
  ∃ front name, location = front ++ [name] ∧ ModuleId.isBehavior name

/-- Whether the output of a source was put at a location. -/
def PutAt (job : Job) (disk : Disk) (results : Results) (source : Path) (location : Location) : Prop :=
  (∃ built, (source, .ok built) ∈ results) ∧ disk.place (job.target source) = location

private theorem ne_temporary (h : IsMarked location) (disk : Disk) (path : Path) (run : Nat) :
    location ≠ disk.place (Output.temporary path run) := by
  obtain ⟨front, name, rfl, hname⟩ := h
  obtain ⟨other, temporary, hplace, htemporary⟩ := Output.place_temporary disk path run
  rw [hplace]
  intro heq
  have hlast : name = temporary := List.head_eq_of_cons_eq (List.append_inj' heq rfl).2
  rw [hlast, htemporary] at hname
  cases hname

theorem step_here (job : Job) (hsource : ModuleId.isBehaviorFile source.text) (disk : Disk) :
    (job.step source disk).2.here = disk.here := by
  have hspec := job.step_spec hsource disk
  generalize job.step source disk = result at hspec ⊢
  obtain ⟨error | built, after⟩ := result
  · exact hspec.here
  · exact hspec.1.here

theorem held?_step (job : Job) (hsource : ModuleId.isBehaviorFile source.text)
    (hmarked : IsMarked location) (hheld : disk.top.held? location = some (some contents))
    (hnot : ∀ built, (job.step source disk).1 = .ok built →
      disk.place (job.target source) ≠ location) :
    (job.step source disk).2.top.held? location = some (some contents) := by
  have hspec := job.step_spec hsource disk
  generalize job.step source disk = result at hspec hnot ⊢
  obtain ⟨error | built, after⟩ := result
  · exact hspec.held location contents (by simpa using ne_temporary hmarked _ _ _) hheld
  · have hne := (hnot built rfl).symm
    exact hspec.1.held location contents (by simpa using ⟨ne_temporary hmarked _ _ _, hne⟩) hheld

theorem held?_target_of_step (job : Job) (hsource : ModuleId.isBehaviorFile source.text)
    {built : BuiltFile} (h : (job.step source disk).1 = .ok built) :
    ∃ contents, disk.held? source = some (some contents) ∧
      (job.step source disk).2.top.held? (disk.place (job.target source)) =
        some (some (job.output source contents)) := by
  have hspec := job.step_spec hsource disk
  generalize job.step source disk = result at hspec h ⊢
  obtain ⟨error | built', after⟩ := result
  · cases h
  · obtain ⟨hkeeps, contents, hheld, hafter⟩ := hspec
    rw [Disk.held?, hkeeps.place] at hafter
    exact ⟨contents, hheld, hafter⟩

theorem steps_append (job : Job) (first rest : List Path) (disk : Disk) :
    job.steps (first ++ rest) disk =
      ((job.steps first disk).1 ++ (job.steps rest (job.steps first disk).2).1,
        (job.steps rest (job.steps first disk).2).2) := by
  induction first generalizing disk with
  | nil => rfl
  | cons source first ih => simp only [List.cons_append, steps_cons, ih]

theorem steps_here (job : Job) {sources : List Path}
    (hsources : ∀ source ∈ sources, ModuleId.isBehaviorFile source.text) (disk : Disk) :
    (job.steps sources disk).2.here = disk.here := by
  induction sources generalizing disk with
  | nil => rfl
  | cons first rest ih =>
    rw [steps_cons, ih fun source h => hsources source (List.mem_cons_of_mem first h)]
    exact job.step_here (hsources first List.mem_cons_self) disk

theorem PutAt.congr {first second : Disk} {results : Results} (h : second.here = first.here) :
    job.PutAt second results source location ↔ job.PutAt first results source location := by
  rw [PutAt, PutAt, Disk.place_congr h]

/-- Steps touch no behavior file but their own outputs. -/
theorem held?_steps (job : Job) {sources : List Path}
    (hsources : ∀ source ∈ sources, ModuleId.isBehaviorFile source.text)
    (hmarked : IsMarked location) (hheld : disk.top.held? location = some (some contents))
    (hnot : ∀ source ∈ sources, ¬ job.PutAt disk (job.steps sources disk).1 source location) :
    (job.steps sources disk).2.top.held? location = some (some contents) := by
  induction sources generalizing disk with
  | nil => exact hheld
  | cons first rest ih =>
    have hfirst := hsources first List.mem_cons_self
    have hhere := job.step_here hfirst disk
    rw [steps_cons] at hnot ⊢
    have hstep : (job.step first disk).2.top.held? location = some (some contents) := by
      refine job.held?_step hfirst hmarked hheld fun built hbuilt hplace => ?_
      exact hnot first List.mem_cons_self ⟨⟨built, by simp [hbuilt]⟩, hplace⟩
    refine ih (fun source h => hsources source (List.mem_cons_of_mem first h)) hstep ?_
    intro source hsource hput
    obtain ⟨⟨built, hbuilt⟩, hplace⟩ := (PutAt.congr hhere).mp hput
    exact hnot source (List.mem_cons_of_mem first hsource)
      ⟨⟨built, List.mem_cons_of_mem _ hbuilt⟩, hplace⟩

/-- Different files of a disk that go by the names of behavior files, with different outputs. -/
structure IsSourceList (job : Job) (disk : Disk) (sources : List Path) : Prop where
  nodup : sources.Nodup
  behavior : ∀ source ∈ sources, ModuleId.isBehaviorFile source.text
  marked : ∀ source ∈ sources, IsMarked (disk.place source)
  held : ∀ source ∈ sources, ∃ contents, disk.held? source = some (some contents)
  apart : ∀ source ∈ sources, ∀ other ∈ sources,
    disk.place (job.target source) = disk.place (job.target other) → source = other

theorem isSourceList_sources (job : Job) (hordered : disk.top.Ordered) :
    job.IsSourceList disk (job.sources disk) where
  nodup := nodup_found hordered
  behavior source h := by
    obtain ⟨location, name, contents, -, -, hbehavior, -⟩ := exists_name_of_mem_found hordered h
    exact hbehavior
  marked source h := by
    obtain ⟨location, name, contents, hplace, hname, -⟩ := exists_name_of_mem_found hordered h
    exact ⟨location, name, hplace, hname⟩
  held source h := by
    obtain ⟨location, name, contents, -, -, -, hheld⟩ := exists_name_of_mem_found hordered h
    exact ⟨contents, hheld⟩
  apart source h other hother := eq_of_place_outfile hordered h hother

theorem exists_step_of_mem {sources : List Path} {result : Except ModuleError BuiltFile}
    (h : (source, result) ∈ (job.steps sources disk).1) :
    ∃ first rest, sources = first ++ source :: rest ∧
      (job.step source (job.steps first disk).2).1 = result := by
  induction sources generalizing disk with
  | nil => cases h
  | cons head rest ih =>
    rw [steps_cons] at h
    obtain h | h := List.mem_cons.mp h
    · obtain ⟨rfl, rfl⟩ := Prod.mk.inj h
      exact ⟨[], rest, rfl, rfl⟩
    · obtain ⟨first, later, rfl, hstep⟩ := ih h
      exact ⟨head :: first, later, rfl, hstep⟩

/-- Steps that put out what was there already leave all sources as they are. -/
theorem held?_steps_of_output {sources todo : List Path} {now : Disk}
    (hlist : job.IsSourceList disk sources) (hsub : todo ⊆ sources) (hhere : now.here = disk.here)
    (hkept : ∀ file ∈ sources, now.held? file = disk.held? file)
    (hput : ∀ source ∈ todo, ∀ file ∈ sources,
      job.PutAt disk (job.steps todo now).1 source (disk.place file) →
        ∃ contents, disk.held? source = some (some contents) ∧
          disk.held? file = some (some (job.output source contents))) :
    ∀ file ∈ sources, (job.steps todo now).2.held? file = disk.held? file := by
  induction todo generalizing now with
  | nil => exact hkept
  | cons first rest ih =>
    have hfirst := hlist.behavior first (hsub List.mem_cons_self)
    have hstep := (job.step_here hfirst now).trans hhere
    rw [steps_cons] at hput ⊢
    refine ih (fun source h => hsub (List.mem_cons_of_mem first h)) hstep ?_ ?_
    · intro file hfile
      have hnow := hkept file hfile
      obtain ⟨contents, hheld⟩ := hlist.held file hfile
      rw [hheld, Disk.held?, Disk.place_congr hhere] at hnow
      rw [Disk.held?, Disk.place_congr hstep]
      by_cases hown : ∃ built, (job.step first now).1 = .ok built ∧
          now.place (job.target first) = disk.place file
      · obtain ⟨built, hbuilt, hplace⟩ := hown
        obtain ⟨bytes, hread, hout⟩ := job.held?_target_of_step hfirst hbuilt
        rw [hkept first (hsub List.mem_cons_self)] at hread
        rw [Disk.place_congr hhere] at hplace
        obtain ⟨bytes', hread', hfile'⟩ := hput first List.mem_cons_self file hfile
          ⟨⟨built, by simp [hbuilt]⟩, hplace⟩
        obtain rfl : bytes = bytes' := by simpa [hread] using hread'
        rw [Disk.place_congr hhere, hplace] at hout
        exact hout.trans hfile'.symm
      · rw [hheld]
        exact job.held?_step hfirst (hlist.marked file hfile) hnow fun built hbuilt hplace =>
          hown ⟨built, hbuilt, hplace⟩
    · rintro source hsource file hfile ⟨⟨built, hbuilt⟩, hplace⟩
      exact hput source (List.mem_cons_of_mem first hsource) file hfile
        ⟨⟨built, List.mem_cons_of_mem _ hbuilt⟩, hplace⟩

/-- Sources that are left as they are hold what was put out at their places. -/
theorem output_of_held?_steps {sources : List Path} (hlist : job.IsSourceList disk sources)
    (hkept : ∀ file ∈ sources, (job.steps sources disk).2.held? file = disk.held? file)
    {file : Path} (hfile : file ∈ sources)
    (hput : job.PutAt disk (job.steps sources disk).1 source (disk.place file)) :
    ∃ contents, disk.held? source = some (some contents) ∧
      disk.held? file = some (some (job.output source contents)) := by
  have hlast := job.steps_here hlist.behavior disk
  obtain ⟨⟨built, hbuilt⟩, hplace⟩ := hput
  obtain ⟨first, rest, rfl, hstep⟩ := exists_step_of_mem hbuilt
  rw [steps_append] at hkept hlast
  have hsource : source ∈ first ++ source :: rest := by simp
  have hfirst : ∀ other ∈ first, other ∈ first ++ source :: rest := fun other h =>
    List.mem_append_left _ h
  have hrest : ∀ other ∈ source :: rest, other ∈ first ++ source :: rest := fun other h =>
    List.mem_append_right _ h
  have hbefore := job.steps_here (fun other h => hlist.behavior other (hfirst other h)) disk
  generalize hnow : (job.steps first disk).2 = now at hkept hlast hbefore hstep
  have hafter := (job.step_here (hlist.behavior source hsource) now).trans hbefore
  obtain ⟨bytes, hread, hout⟩ := job.held?_target_of_step (hlist.behavior source hsource) hstep
  rw [Disk.held?, Disk.place_congr hbefore] at hread
  rw [Disk.place_congr hbefore, hplace] at hout
  obtain ⟨-, hnodup, hapart⟩ := List.nodup_append.mp hlist.nodup
  refine ⟨bytes, ?_, ?_⟩
  · -- a module before this one may have changed the source, but then it stays changed
    by_cases hchanged : ∃ other ∈ first,
        job.PutAt disk (job.steps first disk).1 other (disk.place source)
    · obtain ⟨other, hother, -, hsame⟩ := hchanged
      rw [← hkept source hsource, Disk.held?, Disk.place_congr hlast]
      refine job.held?_steps (fun later h => hlist.behavior later (hrest later h))
        (hlist.marked source hsource) hread fun later hlater hput => ?_
      obtain ⟨-, hlaterplace⟩ := (PutAt.congr hbefore).mp hput
      exact hapart other hother later hlater
        (hlist.apart other (hfirst other hother) later (hrest later hlater)
          (hsame.trans hlaterplace.symm))
    · obtain ⟨contents, hheld⟩ := hlist.held source hsource
      have hunchanged := job.held?_steps (fun other h => hlist.behavior other (hfirst other h))
        (hlist.marked source hsource) hheld fun other hother hput => hchanged ⟨other, hother, hput⟩
      rw [hnow, hread] at hunchanged
      exact hheld.trans hunchanged.symm
  · rw [← hkept file hfile, Disk.held?, Disk.place_congr hlast, steps_cons]
    refine job.held?_steps
      (fun later h => hlist.behavior later (hrest later (List.mem_cons_of_mem source h)))
      (hlist.marked file hfile) hout fun later hlater hput => ?_
    obtain ⟨-, hlaterplace⟩ := (PutAt.congr hafter).mp hput
    have hsame := hlist.apart source hsource later (hrest later (List.mem_cons_of_mem source hlater))
      (hplace.trans hlaterplace.symm)
    exact (List.nodup_cons.mp hnodup).1 (hsame ▸ hlater)

theorem kept_of_output (job : Job) (json : Bool) (hordered : disk.top.Ordered)
    (hput : ∀ source ∈ job.sources disk, ∀ file ∈ job.sources disk,
      job.PutAt disk (job.modules disk).1 source (disk.place file) →
        ∃ contents, disk.held? source = some (some contents) ∧
          disk.held? file = some (some (job.output source contents))) :
    ∀ file ∈ job.sources disk, (job.run json disk).2.held? file = disk.held? file := by
  rw [run_disk]
  rw [modules] at hput ⊢
  split at hput
  · rename_i hsame
    rw [if_pos hsame]
    exact fun file _ => rfl
  · rename_i hsame
    rw [if_neg hsame]
    exact held?_steps_of_output (job.isSourceList_sources hordered) (List.Subset.refl _) rfl
      (fun _ _ => rfl) hput

/-- A build leaves all its sources as they are exactly when every output that is put at the place of
a source is what that source held before. -/
theorem sources_kept_iff (job : Job) (json : Bool) {disk : Disk} (hordered : disk.top.Ordered) :
    (∀ file ∈ job.sources disk, (job.run json disk).2.held? file = disk.held? file) ↔
      ∀ source ∈ job.sources disk, ∀ file ∈ job.sources disk,
        job.PutAt disk (job.modules disk).1 source (disk.place file) →
          ∃ contents, disk.held? source = some (some contents) ∧
            disk.held? file = some (some (job.output source contents)) := by
  refine ⟨fun hkept source _ file hfile hput => ?_, job.kept_of_output json hordered⟩
  rw [run_disk, modules] at hkept
  rw [modules] at hput
  split at hput
  · exact absurd hput.1 (by simp)
  · rename_i hsame
    rw [if_neg hsame] at hkept
    exact output_of_held?_steps (job.isSourceList_sources hordered) hkept hfile hput

def menuDisk : Disk :=
  ⟨.directory (.entry "src".toList (.directory (.entry "menu.behavior.js".toList
    (.file (Text.encode "export default \x7b\n\x7d")) .empty)) .empty), []⟩

theorem ordered_menuDisk : menuDisk.top.Ordered := by
  simp [menuDisk, Node.Ordered, Entries.Ordered]

/-- The build of `src` into `dist` leaves the module as it is. -/
theorem sources_kept_menu :
    let job : Job := ⟨1, .ofString "/", .ofString "/src", .ofString "/dist", ⟨false⟩⟩
    menuDisk.top.Ordered ∧ job.sources menuDisk = [.ofString "/src/menu.behavior.js"] ∧
      ∀ file ∈ job.sources menuDisk,
        (job.run true menuDisk).2.held? file = menuDisk.held? file := by
  intro job
  have hsources : job.sources menuDisk = [.ofString "/src/menu.behavior.js"] := by decide +kernel
  refine ⟨ordered_menuDisk, hsources, (sources_kept_iff job true ordered_menuDisk).mpr ?_⟩
  intro source hsource file hfile hput
  rw [hsources, List.mem_singleton] at hsource hfile
  have hplace : menuDisk.place (job.target (.ofString "/src/menu.behavior.js")) ≠
      menuDisk.place (.ofString "/src/menu.behavior.js") := by decide
  rw [hsource, hfile] at hput
  exact absurd hput.2 hplace

/-- An output directory that is spelled through a directory still to be made is taken for another
one than the root, and the module is overwritten. -/
theorem source_changed_menu :
    let job : Job := ⟨1, .ofString "/", .ofString "/src", .ofString "/src/x/..", ⟨false⟩⟩
    let file : Path := .ofString "/src/menu.behavior.js"
    menuDisk.top.Ordered ∧ file ∈ job.sources menuDisk ∧
      (job.run false menuDisk).2.held? file =
        some (some (Text.encode "window.Drupal.behaviors.menu = \x7b\n\x7d")) ∧
      (job.run false menuDisk).2.held? file ≠ menuDisk.held? file := by
  intro job file
  refine ⟨ordered_menuDisk, ?_, ?_, ?_⟩ <;> decide +kernel

/-- When neither directory lies in the other, no output goes to the place of a source. -/
theorem place_target_ne_of_disjoint (hordered : disk.top.Ordered)
    (hroot : ¬ disk.place job.outDir <+: disk.place job.root)
    (hout : ¬ disk.place job.root <+: disk.place job.outDir) {file : Path}
    (hsource : source ∈ job.sources disk) (hfile : file ∈ job.sources disk) :
    disk.place (job.target source) ≠ disk.place file := by
  intro hplace
  obtain ⟨names, -, -, htarget⟩ := exists_names_of_mem_found hordered hsource
  obtain ⟨others, -, hplaceother, -⟩ := exists_names_of_mem_found hordered hfile
  rw [target, htarget, hplaceother] at hplace
  have hcommon : disk.place job.outDir <+: disk.place job.root ++ others := ⟨names, hplace⟩
  obtain h | h := List.prefix_or_prefix_of_prefix hcommon (List.prefix_append _ others)
  · exact hroot h
  · exact hout h

/-- So a build between two such directories leaves all its sources as they are. -/
theorem sources_kept_of_disjoint (job : Job) (json : Bool) {disk : Disk}
    (hordered : disk.top.Ordered) (hroot : ¬ disk.place job.outDir <+: disk.place job.root)
    (hout : ¬ disk.place job.root <+: disk.place job.outDir) {file : Path}
    (hfile : file ∈ job.sources disk) :
    (job.run json disk).2.held? file = disk.held? file :=
  job.kept_of_output json hordered (fun _ hsource _ hother hput =>
    absurd hput.2 (place_target_ne_of_disjoint hordered hroot hout hsource hother)) file hfile

end BehaviorRegistrar.Command.Build.Job
