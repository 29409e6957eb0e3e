import BehaviorRegistrar.Proofs.Build.Sources
import BehaviorRegistrar.Proofs.Disk.Faults

/-!
# The steps of a build

A build with accepted options is a sequence of steps, one for each source it found: nothing else of
it touches the disk. A step touches no file under the name of a behavior file but the output of its
source, and that only when it succeeds; then the output is the registered text of what the source held.
-/

namespace BehaviorRegistrar.Command.Build

/-- A build with accepted options. -/
structure Job where
  runNumber : Nat
  cwd : Path
  root : Path
  outDir : Path
  options : Options

abbrev Results := List (Path × Except ModuleError BuiltFile)

namespace Job

def container (job : Job) : Container :=
  (Container.empty job.cwd.text).add (.behaviors job.options)

def sources (job : Job) (disk : Disk) : List Path := found job.root job.outDir disk

def target (job : Job) (source : Path) : Path := outfile job.root job.outDir source

def output (job : Job) (source : Path) (contents : Contents) : Contents :=
  Text.encode (Loader.standard.transformWith (Text.decode contents) source.text job.options)

def step (job : Job) (source : Path) : OnDisk (Except ModuleError BuiltFile) :=
  buildFile job.container job.runNumber job.root job.outDir source

def steps (job : Job) (sources : List Path) : OnDisk Results :=
  buildFiles job.container job.runNumber job.root job.outDir sources

def run (job : Job) (json : Bool) : OnDisk Outcome :=
  Build.run json job.runNumber job.cwd ⟨job.root, job.outDir, .ok job.options⟩

/-- What becomes of the modules and of the disk. A build into its own root is refused. -/
def modules (job : Job) : OnDisk Results := fun disk =>
  if ((sameDirectory job.root job.outDir : OnDisk Bool) disk).1 then ([], disk)
  else job.steps (job.sources disk) disk

variable {job : Job} {source : Path} {disk : Disk}

theorem sameDirectory_disk (a b : Path) (disk : Disk) :
    ((sameDirectory a b : OnDisk Bool) disk).2 = disk := by
  rw [sameDirectory, OnDisk.bind_apply, OnDisk.bind_apply]
  simp only [Host.location?]
  cases (disk.resolve a).toOption <;> cases (disk.resolve b).toOption <;> rfl

theorem transform_container {code id : String} (h : ModuleId.isBehaviorFile id) :
    (job.container.transform code id).result =
      .ok (Loader.standard.transformWith code id job.options) := by
  simp [container, Container.transform, Container.add, Container.empty, Container.insert,
    Visit.through, Plugin.behaviors, h, Except.map]

theorem isOk_transform (job : Job) (code id : String) :
    ∃ text, (job.container.transform code id).result = .ok text := ⟨_, rfl⟩

def record (job : Job) (source : Path) (contents : Contents) : BuiltFile where
  file := (job.root.below? source).getD source
  outfile := job.target source
  name := ModuleId.moduleName source.text
  size := (job.output source contents).length

theorem step_of_refused {fault : DiskFault} (h : disk.read source = .error fault) :
    job.step source disk = (.error (.disk fault), disk) := by
  rw [step, buildFile, OnDisk.bind_apply, Output.readSource, OnDisk.bind_apply]
  simp only [Host.readFile, h]
  rfl

/-- A step that has read its source writes the output. -/
theorem step_of_read {contents : Contents} (hsource : ModuleId.isBehaviorFile source.text)
    (h : disk.read source = .ok contents) :
    job.step source disk =
      match (Output.write job.runNumber (job.target source)
        (Loader.standard.transformWith (Text.decode contents) source.text job.options) :
          OnDisk (Except DiskFault Unit)) disk with
      | (.error fault, after) => (.error (.disk fault), after)
      | (.ok (), after) => (.ok (job.record source contents), after) := by
  rw [step, buildFile, OnDisk.bind_apply, Output.readSource, OnDisk.bind_apply]
  simp only [Host.readFile, h, Except.map, OnDisk.pure_apply, transform_container hsource]
  rw [OnDisk.bind_apply, ← outfile, ← target]
  generalize (Output.write job.runNumber (job.target source)
    (Loader.standard.transformWith (Text.decode contents) source.text job.options) :
      OnDisk (Except DiskFault Unit)) disk = written
  obtain ⟨fault | _, after⟩ := written <;> rfl

theorem steps_cons (job : Job) (source : Path) (rest : List Path) (disk : Disk) :
    job.steps (source :: rest) disk =
      ((source, (job.step source disk).1) :: (job.steps rest (job.step source disk).2).1,
        (job.steps rest (job.step source disk).2).2) := rfl

/-- A step fails by a fault of the disk. -/
theorem step_error {error : ModuleError} (h : (job.step source disk).1 = .error error) :
    ∃ fault, error = .disk fault ∧ ∀ message, fault ≠ .other message := by
  have hnumbered : ∀ {α : Type} {result : Except DiskFault α} {fault : DiskFault},
      Disk.IsNumbered result → result = .error fault → ∀ message, fault ≠ .other message := by
    rintro α result fault hresult rfl message rfl
    exact hresult message rfl
  rw [step, buildFile, OnDisk.bind_apply, Output.readSource, OnDisk.bind_apply] at h
  simp only [Host.readFile] at h
  cases hread : disk.read source with
  | error fault =>
    rw [hread] at h
    cases h
    exact ⟨fault, rfl, hnumbered (disk.isNumbered_read source) hread⟩
  | ok contents =>
    obtain ⟨text, htext⟩ := job.isOk_transform (Text.decode contents) source.text
    simp only [hread, Except.map, OnDisk.pure_apply, htext] at h
    rw [OnDisk.bind_apply] at h
    have hwrite := Output.isNumbered_write job.runNumber
      (job.outDir.join ((job.root.below? source).getD source)) text disk
    generalize (Output.write job.runNumber (job.outDir.join ((job.root.below? source).getD source))
      text : OnDisk (Except DiskFault Unit)) disk = written at h hwrite
    obtain ⟨fault | _, after⟩ := written
    · cases h
      exact ⟨fault, rfl, hnumbered hwrite rfl⟩
    · cases h

theorem steps_error {sources : List Path} {path : Path} {error : ModuleError}
    (h : (path, .error error) ∈ (job.steps sources disk).1) :
    ∃ fault, error = .disk fault ∧ ∀ message, fault ≠ .other message := by
  induction sources generalizing disk with
  | nil => cases h
  | cons source rest ih =>
    rw [steps_cons] at h
    rcases List.mem_cons.mp h with hfirst | hrest
    · exact step_error (Prod.mk.inj hfirst).2.symm
    · exact ih hrest

/-- What a step does to the files of a disk. -/
theorem step_spec (job : Job) (hsource : ModuleId.isBehaviorFile source.text) (disk : Disk) :
    match job.step source disk with
    | (.error _, after) =>
      Disk.Keeps [disk.place (Output.temporary (job.target source) job.runNumber)] disk after
    | (.ok _, after) =>
      Disk.Keeps [disk.place (Output.temporary (job.target source) job.runNumber),
          disk.place (job.target source)] disk after ∧
        ∃ contents, disk.held? source = some (some contents) ∧
          after.held? (job.target source) = some (some (job.output source contents)) := by
  cases hread : disk.read source with
  | error fault =>
    rw [step_of_refused hread]
    exact Disk.Keeps.refl _ disk
  | ok contents =>
    have hwrite := Output.write_spec job.runNumber (job.target source)
      (Loader.standard.transformWith (Text.decode contents) source.text job.options) disk
    rw [step_of_read hsource hread]
    generalize (Output.write job.runNumber (job.target source)
      (Loader.standard.transformWith (Text.decode contents) source.text job.options) :
        OnDisk (Except DiskFault Unit)) disk = written at hwrite ⊢
    obtain ⟨fault | _, after⟩ := written
    · exact hwrite
    · exact ⟨hwrite.1, contents, Disk.held?_of_read hread, hwrite.2⟩

/-- A step adds directories and removes none. -/
theorem growth_step (job : Job) (source : Path) :
    OnDisk.Within Output.Growth (job.step source) := by
  rw [step, buildFile]
  refine OnDisk.within_bind Output.isFrame_growth (fun _ => Disk.Grows.refl) fun read => ?_
  split
  · exact OnDisk.within_pure Output.isFrame_growth _
  · split
    · exact OnDisk.within_pure Output.isFrame_growth _
    · refine OnDisk.within_bind Output.isFrame_growth (Output.growth_write _ _ _) fun written => ?_
      split <;> exact OnDisk.within_pure Output.isFrame_growth _

theorem growth_steps (job : Job) (sources : List Path) :
    OnDisk.Within Output.Growth (job.steps sources) := by
  induction sources with
  | nil => exact OnDisk.within_pure Output.isFrame_growth _
  | cons source rest ih =>
    refine OnDisk.within_bind Output.isFrame_growth (job.growth_step source) fun result => ?_
    exact OnDisk.within_bind Output.isFrame_growth ih fun results =>
      OnDisk.within_pure Output.isFrame_growth _

end Job

end BehaviorRegistrar.Command.Build
