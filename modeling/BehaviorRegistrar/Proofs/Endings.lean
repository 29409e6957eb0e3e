import BehaviorRegistrar.Program
import BehaviorRegistrar.Proofs.Build.Steps
import BehaviorRegistrar.Proofs.Results

/-!
# The endings of commands

A command on a disk ends in one of a few ways. Each is told by what the command found, the outcome it
has there and the disk it leaves; what holds of all runs is seen by going through them.
-/

namespace BehaviorRegistrar

open OnDisk Command CommandLine

namespace Command

namespace Transform

def output (request : TransformRequest) (options : Options) (contents : Contents) : String :=
  Loader.standard.transformWith (Text.decode contents) request.file.text options

def result (request : TransformRequest) (options : Options) (code : Option String) (size : Nat) :
    TransformResult :=
  ⟨request.file, some (ModuleId.moduleName request.file.text), request.outfile, options.hotReload,
    code, size, 0, none⟩

def event (request : TransformRequest) (options : Options) : Log.Event :=
  transformed request.file.text (ModuleId.moduleName request.file.text) options.hotReload

/-- The ways in which a transformation ends. -/
inductive Ends (json : Bool) (runNumber : Nat) (request : TransformRequest) (disk : Disk) :
    Outcome → Disk → Prop
  | refused {error : OptionsError} (hoptions : request.options = .error error) :
      Ends json runNumber request disk
        (.refusal json (TransformResult.ofFailure request (.ofOptions error) 0).toJson error.message [])
        disk
  | unread {options : Options} {fault : DiskFault} (hoptions : request.options = .ok options)
      (hread : disk.read request.file = .error fault) :
      Ends json runNumber request disk
        (.refusal json
          (TransformResult.ofFailure request (.ofDisk fault request.file) 0).toJson fault.message [])
        disk
  | printed {options : Options} {contents : Contents} (log : List Log.Event)
      (hoptions : request.options = .ok options) (hread : disk.read request.file = .ok contents)
      (houtfile : request.outfile = none) (hlog : log = [event request options]) :
      Ends json runNumber request disk
        (.finished json
          (result request options (some (output request options contents))
            (output request options contents).utf8ByteSize).toJson
          (output request options contents) log)
        disk
  | unwritten {options : Options} {contents : Contents} {outfile : Path} {fault : DiskFault}
      {after : Disk} (log : List Log.Event) (hoptions : request.options = .ok options)
      (hread : disk.read request.file = .ok contents) (houtfile : request.outfile = some outfile)
      (hwrite : (Output.write runNumber outfile (output request options contents) :
        OnDisk (Except DiskFault Unit)) disk = (.error fault, after))
      (hlog : log = [event request options]) :
      Ends json runNumber request disk (.reported fault.message log) after
  | written {options : Options} {contents : Contents} {outfile : Path} {after : Disk}
      (log : List Log.Event) (hoptions : request.options = .ok options)
      (hread : disk.read request.file = .ok contents) (houtfile : request.outfile = some outfile)
      (hwrite : (Output.write runNumber outfile (output request options contents) :
        OnDisk (Except DiskFault Unit)) disk = (.ok (), after))
      (hlog : log = [event request options, wrote request.file.text outfile.text
        (output request options contents).utf8ByteSize]) :
      Ends json runNumber request disk
        (.finished json
          (result request options none (output request options contents).utf8ByteSize).toJson "" log)
        after

variable (json : Bool) (runNumber : Nat) (request : TransformRequest) (disk : Disk)

theorem ends_run :
    Ends json runNumber request disk ((run json runNumber request : OnDisk Outcome) disk).1
      ((run json runNumber request : OnDisk Outcome) disk).2 := by
  obtain ⟨file, outfile, _ | options⟩ := request
  · cases json <;> exact .refused rfl
  · rw [run]
    dsimp only
    rw [bind_apply, Output.readSource, bind_apply]
    simp only [Host.readFile]
    cases hread : disk.read file with
    | error fault => cases json <;> exact .unread rfl hread
    | ok contents =>
      simp only [Except.map, pure_apply]
      cases outfile with
      | none => cases json <;> exact .printed _ rfl hread rfl rfl
      | some outfile =>
        dsimp only
        rw [bind_apply]
        cases hwrite : (Output.write runNumber outfile
            (Loader.standard.transformWith (Text.decode contents) file.text options) :
              OnDisk (Except DiskFault Unit)) disk with
        | mk written after =>
          cases written with
          | error fault => exact .unwritten _ rfl hread rfl hwrite rfl
          | ok done => cases json <;> exact .written _ rfl hread rfl hwrite rfl

end Transform

namespace Build.Job

def search (job : Job) (disk : Disk) : Except (Path × DiskFault) (List Path) :=
  ((disk.node job.root).mapError fun fault => (job.root, fault)).bind
    (Node.findBehaviorFiles job.root job.outDir)

def isInPlace (job : Job) (disk : Disk) : Bool :=
  ((sameDirectory job.root job.outDir : OnDisk Bool) disk).1

def result (job : Job) (files : List BuiltFile) (failure : Option Failure) : BuildResult :=
  ⟨job.root, job.outDir, job.options.hotReload, files, 0, failure⟩

def inPlaceMessage (job : Job) : String :=
  s!"output directory {job.outDir.text} must differ from the source root"

/-- The ways in which a build with accepted options ends. -/
inductive Ends (job : Job) (json : Bool) (disk : Disk) : Outcome → Disk → Prop
  | inPlace (hsame : job.isInPlace disk = true) :
      Ends job json disk
        (.refusal json
          (job.result [] (some ⟨.invalidOutDir, job.inPlaceMessage, none, some job.outDir⟩)).toJson
          job.inPlaceMessage [])
        disk
  | unwalked {path : Path} {fault : DiskFault} (hsame : job.isInPlace disk = false)
      (hsearch : job.search disk = .error (path, fault)) :
      Ends job json disk
        (.reported s!"IO error for operation on {path.text}: {fault.message}" []) disk
  | failed {files : List Path} {path : Path} {error : ModuleError} (log : List Log.Event)
      (hsame : job.isInPlace disk = false) (hsearch : job.search disk = .ok files)
      (hcollect : collect (job.steps files disk).1 = .error (path, error))
      (hlog : log = discovered files.length job.root.text :: events (job.steps files disk).1) :
      Ends job json disk
        (.refusal json (job.result [] (some (error.failure path))).toJson
          s!"{path.text}: {error.message}" log)
        (job.steps files disk).2
  | built {files : List Path} {records : List BuiltFile} (log : List Log.Event)
      (hsame : job.isInPlace disk = false) (hsearch : job.search disk = .ok files)
      (hcollect : collect (job.steps files disk).1 = .ok records)
      (hlog : log = discovered files.length job.root.text :: events (job.steps files disk).1 ++
        [finished records.length job.outDir.text 0]) :
      Ends job json disk
        (.finished json (job.result records none).toJson
          (String.join (records.map BuiltFile.line)) log)
        (job.steps files disk).2

theorem run_of_inPlace {job : Job} {disk : Disk} (json : Bool) (hsame : job.isInPlace disk = true) :
    job.run json disk =
      (.refusal json
        (job.result [] (some ⟨.invalidOutDir, job.inPlaceMessage, none, some job.outDir⟩)).toJson
        job.inPlaceMessage [], disk) := by
  rw [isInPlace] at hsame
  rw [run, Build.run]
  dsimp only
  rw [bind_apply, sameDirectory_disk, hsame]
  cases json <;> rfl

theorem run_of_unwalked {job : Job} {disk : Disk} {path : Path} {fault : DiskFault} (json : Bool)
    (hsame : job.isInPlace disk = false) (hsearch : job.search disk = .error (path, fault)) :
    job.run json disk =
      (.reported s!"IO error for operation on {path.text}: {fault.message}" [], disk) := by
  rw [isInPlace] at hsame
  rw [search] at hsearch
  rw [run, Build.run]
  dsimp only
  rw [bind_apply, sameDirectory_disk, hsame, if_neg Bool.false_ne_true, bind_apply]
  simp only [Host.subtree, hsearch]
  rfl

/-- A build that is not refused builds what its search finds. -/
theorem run_of_search {job : Job} {disk : Disk} {files : List Path} (json : Bool)
    (hsame : job.isInPlace disk = false) (hsearch : job.search disk = .ok files) :
    job.run json disk =
      (runModules json job.runNumber job.container job.options.hotReload
        ⟨job.root, job.outDir, .ok job.options⟩ files : OnDisk Outcome) disk := by
  rw [isInPlace] at hsame
  rw [search] at hsearch
  rw [run, Build.run]
  dsimp only
  rw [bind_apply, sameDirectory_disk, hsame, if_neg Bool.false_ne_true, bind_apply]
  simp only [Host.subtree, hsearch]
  rfl

variable (job : Job) (json : Bool) (disk : Disk)

theorem buildStart_container : job.container.buildStart.result = .ok () := rfl

theorem buildEnd_container : job.container.buildEnd.result = .ok () := rfl

theorem ends_run : job.Ends json disk (job.run json disk).1 (job.run json disk).2 := by
  cases hsame : job.isInPlace disk with
  | true =>
    rw [run_of_inPlace json hsame]
    exact .inPlace hsame
  | false =>
    cases hsearch : job.search disk with
    | error found =>
      rw [run_of_unwalked json hsame hsearch]
      exact .unwalked hsame hsearch
    | ok files =>
      rw [run_of_search json hsame hsearch]
      simp only [runModules, buildStart_container, buildEnd_container]
      rw [bind_apply]
      have hsteps : buildFiles (m := OnDisk) job.container job.runNumber job.root job.outDir files
        disk = job.steps files disk := rfl
      rw [hsteps]
      cases hcollect : collect (job.steps files disk).1 with
      | error found => cases json <;> exact .failed _ hsame hsearch hcollect rfl
      | ok records => cases json <;> exact .built _ hsame hsearch hcollect rfl

/-- A walk that fails finds nothing. -/
theorem sources_eq_search : job.sources disk = (job.search disk).toOption.getD [] := by
  rw [sources, found, search]
  cases disk.node job.root with
  | error fault => rfl
  | ok node =>
    have hfound : ((.ok node : Except DiskFault Node).mapError fun fault => (job.root, fault)).bind
        (Node.findBehaviorFiles job.root job.outDir) =
          node.findBehaviorFiles job.root job.outDir := rfl
    dsimp only
    rw [hfound]
    cases node.findBehaviorFiles job.root job.outDir <;> rfl

/-- Only the steps of a build touch the disk. -/
theorem run_disk : (job.run json disk).2 = (job.modules disk).2 := by
  have hends := job.ends_run json disk
  generalize (job.run json disk).1 = outcome, (job.run json disk).2 = after at hends ⊢
  have hmodules : job.modules disk =
      if job.isInPlace disk then ([], disk) else job.steps (job.sources disk) disk := rfl
  have hsources := job.sources_eq_search disk
  rw [hmodules]
  cases hends with
  | inPlace hsame => rw [if_pos hsame]
  | unwalked hsame hsearch =>
    rw [hsearch] at hsources
    rw [if_neg (Bool.eq_false_iff.mp hsame), hsources]
    rfl
  | failed log hsame hsearch hcollect =>
    rw [hsearch] at hsources
    rw [if_neg (Bool.eq_false_iff.mp hsame), hsources]
    rfl
  | built log hsame hsearch hcollect =>
    rw [hsearch] at hsources
    rw [if_neg (Bool.eq_false_iff.mp hsame), hsources]
    rfl

end Build.Job

theorem Build.run_refused {error : OptionsError} {root outDir : Path} (json : Bool) (runNumber : Nat)
    (cwd : Path) (disk : Disk) :
    (Build.run json runNumber cwd ⟨root, outDir, .error error⟩ : OnDisk Outcome) disk =
      (.refusal json (BuildResult.toJson ⟨root, outDir, false, [], 0, some (.ofOptions error)⟩)
        error.message [], disk) := by
  cases json <;> rfl

end Command

namespace Program

def workingDirectory (surroundings : Surroundings) (invocation : Invocation) : Path :=
  (invocation.cwd.map Path.ofString).getD surroundings.currentDirectory

theorem run_of_read {arguments : List String} {invocation : Invocation} (surroundings : Surroundings)
    (h : CommandLine.read arguments = .ok invocation) {m : Type → Type} [Monad m] [Host m] :
    (run surroundings arguments : m Result) = invoke surroundings invocation := by
  rw [run, h]

/-- A run carries out its task, and of the log it keeps what the filter admits. -/
theorem run_apply (surroundings : Surroundings) {arguments : List String} {invocation : Invocation}
    (h : CommandLine.read arguments = .ok invocation) (disk : Disk) :
    let performed := (perform invocation.json surroundings.runNumber
      (workingDirectory surroundings invocation) invocation.task : OnDisk Outcome) disk
    let filter := Log.Filter.ofRequests surroundings.logFilter invocation.verbosity
    (run surroundings arguments : OnDisk Result) disk =
      (⟨{ performed.1 with log := performed.1.log.filter filter.admits }, invocation.json, false⟩,
        performed.2) := by
  rw [run_of_read surroundings h, invoke, OnDisk.bind_apply]
  rfl

/-- Of a run, the log is cut and nothing else is changed. -/
theorem outcome_run (surroundings : Surroundings) {arguments : List String} {invocation : Invocation}
    (h : CommandLine.read arguments = .ok invocation) (disk : Disk) :
    ∃ log, ((run surroundings arguments : OnDisk Result) disk).1.outcome =
      { ((perform invocation.json surroundings.runNumber (workingDirectory surroundings invocation)
          invocation.task : OnDisk Outcome) disk).1 with log := log } := by
  rw [run_apply surroundings h]
  exact ⟨_, rfl⟩

end Program

end BehaviorRegistrar
