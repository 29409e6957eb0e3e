import BehaviorRegistrar.Proofs.Endings
import BehaviorRegistrar.Proofs.Json.Printed
import BehaviorRegistrar.Proofs.Wholeness

/-!
# The channels of a run

A run tells what came of it once. Without JSON results a run that fails reports one message and prints
nothing. With JSON results a run prints one line, an object, or it reports one message; it reports when
the walk of the root fails or the output file of a transformation cannot be written. No plugin fails.
-/

namespace BehaviorRegistrar

open Json Command CommandLine

namespace Outcome

/-- A run without a JSON result: it fails exactly when it makes a report, and then prints nothing. -/
structure IsPlain (outcome : Outcome) : Prop where
  status : outcome.status = 0 ∨ outcome.status = 1
  report : outcome.status = 1 ↔ outcome.report.isSome
  stdout : outcome.status = 1 → outcome.stdout = ""

structure IsReport (outcome : Outcome) : Prop where
  status : outcome.status = 1
  report : outcome.report.isSome
  stdout : outcome.stdout = ""

/-- A run that prints one line, an object that tells how the run ended, and makes no report. -/
structure IsLine (outcome : Outcome) (members : List (String × Json)) : Prop where
  status : outcome.status = 0 ∨ outcome.status = 1
  report : outcome.report = none
  stdout : outcome.stdout = (Json.object members).compact ++ "\n"
  visible : IsVisible (Json.object members).compact.toList
  ok : valuesOf "ok" members = [.bool (outcome.status == 0)]
  success : outcome.status = 0 → valuesOf "error" members = []
  failure : outcome.status = 1 → ∃ details code, valuesOf "error" members = [.object details] ∧
    valuesOf "code" details = [.string code] ∧
      code ∈ ["INVALID_OPTIONS", "INVALID_OUT_DIR", "IO_ERROR"]

variable {result : Json} {message text : String} {log : List Log.Event}
  {members : List (String × Json)}

theorem isPlain_reported : (reported message log).IsPlain := by
  constructor <;> simp [reported]

theorem isPlain_refusal : (refusal false result message log).IsPlain := isPlain_reported

theorem isPlain_success : (success text log).IsPlain := by
  constructor <;> simp [success]

theorem isLine_failed {failure : Failure} (hresult : result = .object members)
    (htells : TellsEnd (some failure) members) (hcode : failure.code ≠ .plugin) :
    (failed (line result) log).IsLine members := by
  subst hresult
  refine ⟨.inr rfl, rfl, rfl, isVisible_compact _, htells.ok, by simp [failed], fun _ => ?_⟩
  obtain ⟨details, hdetails, hdescribed⟩ := failure.exists_details
  have herror : valuesOf "error" members = [.object details] := by
    rw [htells.error, ← hdetails]
    rfl
  refine ⟨details, failure.code.name, herror, hdescribed.code, ?_⟩
  cases hkind : failure.code with
  | plugin => exact absurd hkind hcode
  | invalidOptions => simp [FailureCode.name]
  | invalidOutDir => simp [FailureCode.name]
  | disk => simp [FailureCode.name]

theorem isLine_success (hresult : result = .object members) (htells : TellsEnd none members) :
    (success (line result) log).IsLine members := by
  subst hresult
  exact ⟨.inl rfl, rfl, rfl, isVisible_compact _, htells.ok, fun _ => htells.error, by
    simp [success]⟩

theorem IsLine.withLog {outcome : Outcome} (h : outcome.IsLine members) (log : List Log.Event) :
    ({ outcome with log := log } : Outcome).IsLine members :=
  ⟨h.status, h.report, h.stdout, h.visible, h.ok, h.success, h.failure⟩

end Outcome

namespace Command

/-- The file for the text of a transformation cannot be written. -/
def Transform.IsUnwritable (runNumber : Nat) (request : TransformRequest) (disk : Disk) : Prop :=
  ∃ options contents outfile fault, request.options = .ok options ∧
    disk.read request.file = .ok contents ∧ request.outfile = some outfile ∧
      ((Output.write runNumber outfile (Transform.output request options contents) :
        OnDisk (Except DiskFault Unit)) disk).1 = .error fault

def Build.Job.IsUnwalkable (job : Build.Job) (disk : Disk) : Prop :=
  job.isInPlace disk = false ∧ ∃ fault, job.search disk = .error fault

namespace Transform

variable {json : Bool} {runNumber : Nat} {request : TransformRequest} {disk after : Disk}
  {outcome : Outcome}

/-- The file cannot be written when one stands on the way to it, or a directory in its place, or when a
slash follows its name. -/
theorem isUnwritable_of_obstructs {options : Options} {contents : Contents} {outfile : Path}
    (hordered : disk.top.Ordered) (hoptions : request.options = .ok options)
    (hread : disk.read request.file = .ok contents) (houtfile : request.outfile = some outfile)
    (hobstructs : disk.Obstructs outfile) : IsUnwritable runNumber request disk := by
  rcases hwrite : (Output.write runNumber outfile (output request options contents) :
    OnDisk (Except DiskFault Unit)) disk with ⟨fault | _, after⟩
  · exact ⟨options, contents, outfile, fault, hoptions, hread, houtfile, by rw [hwrite]⟩
  · exact absurd hobstructs (Output.not_obstructs_of_write hordered hwrite)

theorem Ends.isPlain (h : Ends false runNumber request disk outcome after) : outcome.IsPlain := by
  cases h with
  | refused hoptions => exact Outcome.isPlain_refusal
  | unread hoptions hread => exact Outcome.isPlain_refusal
  | printed log hoptions hread houtfile => exact Outcome.isPlain_success
  | unwritten log hoptions hread houtfile hwrite => exact Outcome.isPlain_reported
  | written log hoptions hread houtfile hwrite => exact Outcome.isPlain_success

theorem Ends.isLine_or_isReport (h : Ends true runNumber request disk outcome after) :
    (∃ members, outcome.IsLine members) ∧ ¬ IsUnwritable runNumber request disk ∨
      outcome.IsReport ∧ IsUnwritable runNumber request disk := by
  cases h with
  | refused hoptions =>
    obtain ⟨members, hresult, htells, -⟩ := (TransformResult.ofFailure request _ 0).exists_members
    refine .inl ⟨⟨members, Outcome.isLine_failed hresult htells (by simp [Failure.ofOptions])⟩, ?_⟩
    rintro ⟨options, -, -, -, hother, -⟩
    simp [hoptions] at hother
  | unread hoptions hread =>
    obtain ⟨members, hresult, htells, -⟩ := (TransformResult.ofFailure request _ 0).exists_members
    refine .inl ⟨⟨members, Outcome.isLine_failed hresult htells (by simp [Failure.ofDisk])⟩, ?_⟩
    rintro ⟨-, contents, -, -, -, hother, -⟩
    simp [hread] at hother
  | printed log hoptions hread houtfile =>
    obtain ⟨members, hresult, htells, -⟩ := (result request _ _ _).exists_members
    refine .inl ⟨⟨members, Outcome.isLine_success hresult htells⟩, ?_⟩
    rintro ⟨-, -, outfile, -, -, -, hother, -⟩
    simp [houtfile] at hother
  | unwritten log hoptions hread houtfile hwrite =>
    exact .inr ⟨⟨rfl, rfl, rfl⟩, _, _, _, _, hoptions, hread, houtfile, by rw [hwrite]⟩
  | written log hoptions hread houtfile hwrite =>
    obtain ⟨members, hresult, htells, -⟩ := (result request _ _ _).exists_members
    refine .inl ⟨⟨members, Outcome.isLine_success hresult htells⟩, ?_⟩
    rintro ⟨options, contents, outfile, fault, hoptions', hread', houtfile', hwrite'⟩
    cases hoptions.symm.trans hoptions'
    cases hread.symm.trans hread'
    cases houtfile.symm.trans houtfile'
    simp [hwrite] at hwrite'

end Transform

namespace Build

theorem Job.steps_ne_plugin (job : Job) (sources : List Path) (disk : Disk) (error : PluginError) :
    ∀ result ∈ (job.steps sources disk).1, result.2 ≠ .error (.plugin error) := by
  rintro ⟨path, result⟩ hresult rfl
  obtain ⟨fault, hfault, -⟩ := Job.steps_error hresult
  cases hfault

theorem mem_of_collect {results : Results} {path : Path} {error : ModuleError}
    (h : collect results = .error (path, error)) : (path, .error error) ∈ results := by
  induction results with
  | nil => cases h
  | cons first rest ih =>
    obtain ⟨own, result⟩ := first
    cases result with
    | error fault =>
      cases h
      exact List.mem_cons_self
    | ok built =>
      rw [collect] at h
      cases hrest : collect rest with
      | error found =>
        rw [hrest] at h
        cases h
        exact List.mem_cons_of_mem _ (ih hrest)
      | ok records =>
        rw [hrest] at h
        cases h

namespace Job

variable {job : Job} {disk after : Disk} {outcome : Outcome}

theorem Ends.isPlain (h : job.Ends false disk outcome after) : outcome.IsPlain := by
  cases h with
  | inPlace hsame => exact Outcome.isPlain_refusal
  | unwalked hsame hsearch => exact Outcome.isPlain_reported
  | failed log hsame hsearch hcollect => exact Outcome.isPlain_refusal
  | built log hsame hsearch hcollect => exact Outcome.isPlain_success

theorem Ends.isLine_or_isReport (h : job.Ends true disk outcome after) :
    (∃ members, outcome.IsLine members) ∧ ¬ job.IsUnwalkable disk ∨
      outcome.IsReport ∧ job.IsUnwalkable disk := by
  have hwalkable : ∀ {files}, job.search disk = .ok files → ¬ job.IsUnwalkable disk := by
    rintro files hsearch ⟨-, fault, hother⟩
    simp [hsearch] at hother
  cases h with
  | inPlace hsame =>
    obtain ⟨members, hresult, htells⟩ := (job.result [] (some _)).exists_members
    refine .inl ⟨⟨members, Outcome.isLine_failed hresult htells (by simp)⟩, ?_⟩
    rintro ⟨hother, -⟩
    simp [hsame] at hother
  | unwalked hsame hsearch => exact .inr ⟨⟨rfl, rfl, rfl⟩, hsame, _, hsearch⟩
  | @failed files path error log hsame hsearch hcollect =>
    obtain ⟨members, hresult, htells⟩ := (job.result [] (some (error.failure path))).exists_members
    have hcode : (error.failure path).code ≠ .plugin := by
      cases error with
      | disk fault => simp [ModuleError.failure, Failure.ofDisk]
      | plugin error =>
        exact absurd rfl (job.steps_ne_plugin files disk error (path, .error (.plugin error))
          (mem_of_collect hcollect))
    exact .inl ⟨⟨members, Outcome.isLine_failed hresult htells hcode⟩, hwalkable hsearch⟩
  | @built files records log hsame hsearch hcollect =>
    obtain ⟨members, hresult, htells⟩ := (job.result records none).exists_members
    exact .inl ⟨⟨members, Outcome.isLine_success hresult htells⟩, hwalkable hsearch⟩

end Job

end Build

end Command

namespace Program

/-- Whether a task has no JSON result: the walk of the root fails, or the file for the text of a
transformation cannot be written. -/
def HasNoResult (runNumber : Nat) (cwd : Path) (disk : Disk) : Task → Prop
  | .version => False
  | .transform file outfile source =>
    Transform.IsUnwritable runNumber
      ⟨cwd.join (.ofString file), outfile.map fun path => cwd.join (.ofString path),
        loaderOptions source⟩ disk
  | .build root outDir source =>
    ∃ options, loaderOptions source = .ok options ∧
      Build.Job.IsUnwalkable
        ⟨runNumber, cwd, cwd.join (.ofString root), cwd.join (.ofString outDir), options⟩ disk

theorem perform_isPlain (runNumber : Nat) (cwd : Path) (task : Task) (disk : Disk) :
    ((perform false runNumber cwd task : OnDisk Outcome) disk).1.IsPlain := by
  cases task with
  | version => exact Outcome.isPlain_success
  | transform file outfile source => exact (Transform.ends_run false runNumber _ disk).isPlain
  | build root outDir source =>
    simp only [perform]
    cases loaderOptions source with
    | error error =>
      rw [Build.run_refused]
      dsimp only
      exact Outcome.isPlain_refusal
    | ok options =>
      let job : Build.Job :=
        ⟨runNumber, cwd, cwd.join (.ofString root), cwd.join (.ofString outDir), options⟩
      exact (job.ends_run false disk).isPlain

theorem perform_isLine_or_isReport (runNumber : Nat) (cwd : Path) {task : Task}
    (htask : task ≠ .version) (disk : Disk) :
    (∃ members, ((perform true runNumber cwd task : OnDisk Outcome) disk).1.IsLine members) ∧
        ¬ HasNoResult runNumber cwd disk task ∨
      ((perform true runNumber cwd task : OnDisk Outcome) disk).1.IsReport ∧
        HasNoResult runNumber cwd disk task := by
  cases task with
  | version => exact absurd rfl htask
  | transform file outfile source =>
    exact (Transform.ends_run true runNumber _ disk).isLine_or_isReport
  | build root outDir source =>
    simp only [perform, HasNoResult]
    cases loaderOptions source with
    | error error =>
      rw [Build.run_refused]
      obtain ⟨members, hresult, htells⟩ := (BuildResult.mk (cwd.join (.ofString root))
        (cwd.join (.ofString outDir)) false [] 0 (some (.ofOptions error))).exists_members
      refine .inl ⟨⟨members, ?_⟩, by simp⟩
      dsimp only
      exact Outcome.isLine_failed hresult htells (by simp [Failure.ofOptions])
    | ok options =>
      let job : Build.Job :=
        ⟨runNumber, cwd, cwd.join (.ofString root), cwd.join (.ofString outDir), options⟩
      simp only [Except.ok.injEq, exists_eq_left']
      exact (job.ends_run true disk).isLine_or_isReport

structure TellsOnce (surroundings : Surroundings) (disk : Disk) (invocation : Invocation)
    (outcome : Outcome) : Prop where
  plain : invocation.json = false → outcome.IsPlain
  version : invocation.task = .version → outcome.status = 0 ∧ outcome.report = none
  /-- A run with JSON results prints one, or it reports, in the cases named. -/
  json : invocation.json = true → invocation.task ≠ .version →
    (∃ members, outcome.IsLine members) ∧
        ¬ HasNoResult surroundings.runNumber (workingDirectory surroundings invocation) disk
          invocation.task ∨
      outcome.IsReport ∧
        HasNoResult surroundings.runNumber (workingDirectory surroundings invocation) disk
          invocation.task

theorem tellsOnce_run {surroundings : Surroundings} {arguments : List String}
    {invocation : Invocation} (h : CommandLine.read arguments = .ok invocation) (disk : Disk) :
    TellsOnce surroundings disk invocation
      ((run surroundings arguments : OnDisk Result) disk).1.outcome := by
  obtain ⟨log, houtcome⟩ := outcome_run surroundings h disk
  rw [houtcome]
  obtain ⟨json, verbosity, cwd, task⟩ := invocation
  constructor
  · rintro rfl
    have hplain := perform_isPlain surroundings.runNumber
      (workingDirectory surroundings ⟨false, verbosity, cwd, task⟩) task disk
    exact ⟨hplain.status, hplain.report, hplain.stdout⟩
  · rintro rfl
    cases json <;> exact ⟨rfl, rfl⟩
  · rintro rfl htask
    rcases perform_isLine_or_isReport surroundings.runNumber
      (workingDirectory surroundings ⟨true, verbosity, cwd, task⟩) htask disk with
      ⟨⟨members, hline⟩, hresult⟩ | ⟨hreport, hresult⟩
    · exact .inl ⟨⟨members, hline.withLog log⟩, hresult⟩
    · exact .inr ⟨⟨hreport.status, hreport.report, hreport.stdout⟩, hresult⟩

/-- Whether some run has a code in its JSON result. -/
def Reports (code : String) : Prop :=
  ∃ surroundings disk arguments invocation members details,
    CommandLine.read arguments = .ok invocation ∧
      ((run surroundings arguments : OnDisk Result) disk).1.outcome.IsLine members ∧
        valuesOf "error" members = [.object details] ∧ valuesOf "code" details = [.string code]

theorem reports_of_perform (surroundings : Surroundings) (disk : Disk) {arguments : List String}
    {invocation : Invocation} {failure : Failure} {result : Json} {members : List (String × Json)}
    {log : List Log.Event} (hread : CommandLine.read arguments = .ok invocation)
    (hperform : ((perform invocation.json surroundings.runNumber
      (workingDirectory surroundings invocation) invocation.task : OnDisk Outcome) disk).1 =
        .failed (Command.line result) log)
    (hresult : result = .object members) (htells : TellsEnd (some failure) members)
    (hcode : failure.code ≠ .plugin) : Reports failure.code.name := by
  obtain ⟨details, hdetails, hdescribed⟩ := failure.exists_details
  obtain ⟨kept, houtcome⟩ := outcome_run surroundings hread disk
  have hline : (Outcome.failed (Command.line result) log).IsLine members :=
    Outcome.isLine_failed hresult htells hcode
  refine ⟨surroundings, disk, arguments, invocation, members, details, hread, ?_, ?_, hdescribed.code⟩
  · rw [houtcome, hperform]
    exact hline.withLog kept
  · rw [htells.error, ← hdetails]
    rfl

theorem reports_failures :
    Reports "INVALID_OPTIONS" ∧ Reports "INVALID_OUT_DIR" ∧ Reports "IO_ERROR" := by
  let surroundings : Surroundings := ⟨.ofString "/", 1, none⟩
  let disk : Disk := ⟨.directory .empty, []⟩
  let file : Path := .ofString "/menu.behavior.js"
  let root : Path := .ofString "/src"
  refine ⟨?_, ?_, ?_⟩
  · have hread : CommandLine.read ["--json", "transform", "menu.behavior.js", "--options=[]"] =
        .ok ⟨true, 0, none, .transform "menu.behavior.js" none (.text "[]")⟩ := rfl
    obtain ⟨members, hresult, htells, -⟩ := (TransformResult.ofFailure
      ⟨file, none, .error (.notAnObject .array)⟩
        (.ofOptions (.notAnObject .array)) 0).exists_members
    exact reports_of_perform surroundings disk hread rfl hresult htells
      (by decide)
  · have hread : CommandLine.read ["--json", "build", "src", "--out-dir", "src"] =
        .ok ⟨true, 0, none, .build "src" "src" (.switch false)⟩ := rfl
    obtain ⟨members, hresult, htells⟩ := (BuildResult.mk root root false [] 0
      (some ⟨.invalidOutDir, "output directory /src must differ from the source root", none,
        some root⟩)).exists_members
    exact reports_of_perform surroundings disk hread rfl hresult htells
      (by decide)
  · have hread : CommandLine.read ["--json", "transform", "menu.behavior.js"] =
        .ok ⟨true, 0, none, .transform "menu.behavior.js" none (.switch false)⟩ := rfl
    obtain ⟨members, hresult, htells, -⟩ := (TransformResult.ofFailure
      ⟨file, none, .ok ⟨false⟩⟩ (.ofDisk .notFound file) 0).exists_members
    exact reports_of_perform surroundings disk hread rfl hresult htells
      (by decide)

/-- Every run tells what came of it once. The failures in JSON results have one of three codes, and each
of these occurs; no hook of a build fails and no module fails in a plugin. -/
theorem run_channels :
    (∀ surroundings disk arguments invocation, CommandLine.read arguments = .ok invocation →
      TellsOnce surroundings disk invocation
        ((run surroundings arguments : OnDisk Result) disk).1.outcome) ∧
    (∀ code ∈ ["INVALID_OPTIONS", "INVALID_OUT_DIR", "IO_ERROR"], Reports code) ∧
    ∀ (job : Build.Job) (disk : Disk) (files : List Path),
      job.container.buildStart.result = .ok () ∧ job.container.buildEnd.result = .ok () ∧
        ∀ result ∈ (job.steps files disk).1, ∀ error, result.2 ≠ .error (.plugin error) := by
  refine ⟨fun surroundings disk arguments invocation h => tellsOnce_run h disk, ?_, ?_⟩
  · obtain ⟨hoptions, houtDir, hdisk⟩ := reports_failures
    simp [hoptions, houtDir, hdisk]
  · intro job disk files
    exact ⟨job.buildStart_container, job.buildEnd_container, fun result hresult error =>
      job.steps_ne_plugin files disk error result hresult⟩

/-- The walk of a root that is missing fails, and a module that is missing is told in the result. So is
one whose text is written; when a file stands on the way of the text, that is reported. -/
theorem run_channels_missing :
    let surroundings : Surroundings := ⟨.ofString "/", 1, none⟩
    let disk : Disk := ⟨.directory .empty, []⟩
    let stocked : Disk := ⟨.directory (.entry "menu.behavior.js".toList (.file []) .empty), []⟩
    let outcome (arguments : List String) : Outcome :=
      ((run surroundings arguments : OnDisk Result) disk).1.outcome
    let written (outfile : String) : Outcome :=
      ((run surroundings ["--json", "transform", "menu.behavior.js", "-o", outfile] :
        OnDisk Result) stocked).1.outcome
    (outcome ["--json", "build", "src", "--out-dir", "dist"]).IsReport ∧
      (∃ members, (outcome ["--json", "transform", "menu.behavior.js"]).IsLine members) ∧
      (written "menu.behavior.js/a.js").IsReport ∧
      ∃ members, (written "a.js").IsLine members ∧ (written "a.js").status = 0 := by
  intro surroundings disk stocked outcome written
  have hbuild : CommandLine.read ["--json", "build", "src", "--out-dir", "dist"] =
      .ok ⟨true, 0, none, .build "src" "dist" (.switch false)⟩ := rfl
  have htransform : CommandLine.read ["--json", "transform", "menu.behavior.js"] =
      .ok ⟨true, 0, none, .transform "menu.behavior.js" none (.switch false)⟩ := rfl
  have hbehind : CommandLine.read
      ["--json", "transform", "menu.behavior.js", "-o", "menu.behavior.js/a.js"] =
        .ok ⟨true, 0, none, .transform "menu.behavior.js" (some "menu.behavior.js/a.js")
          (.switch false)⟩ := rfl
  have hbeside : CommandLine.read ["--json", "transform", "menu.behavior.js", "-o", "a.js"] =
      .ok ⟨true, 0, none, .transform "menu.behavior.js" (some "a.js") (.switch false)⟩ := rfl
  have hordered : stocked.top.Ordered := by
    simp [stocked, Node.Ordered, Entries.Ordered]
  have hsource : stocked.read (.ofString "/menu.behavior.js") = .ok [] :=
    eq_ok_of_toOption (by decide +kernel)
  refine ⟨?_, ?_, ?_, ?_⟩
  · rcases (run_channels.1 surroundings disk _ _ hbuild).json rfl (by simp) with
      ⟨-, hresult⟩ | ⟨hreport, -⟩
    · refine absurd ⟨⟨false⟩, rfl, ?_⟩ hresult
      exact ⟨rfl, (.ofString "/src", .notFound), rfl⟩
    · exact hreport
  · rcases (run_channels.1 surroundings disk _ _ htransform).json rfl (by simp) with
      ⟨hline, -⟩ | ⟨-, options, contents, outfile, fault, -, hread, -⟩
    · exact hline
    · cases hread
  · rcases (run_channels.1 surroundings stocked _ _ hbehind).json rfl (by simp) with
      ⟨-, hresult⟩ | ⟨hreport, -⟩
    · refine absurd (Transform.isUnwritable_of_obstructs hordered rfl hsource rfl ?_) hresult
      refine .inr (.inr ⟨.ofString "/menu.behavior.js", by decide +kernel, [], by decide +kernel⟩)
    · exact hreport
  · have hstatus : (written "a.js").status = 0 := by decide +kernel
    rcases (run_channels.1 surroundings stocked _ _ hbeside).json rfl (by simp) with
      ⟨⟨members, hline⟩, -⟩ | ⟨hreport, -⟩
    · exact ⟨members, hline, hstatus⟩
    · exact absurd (hreport.status.symm.trans hstatus) (by decide)

end Program

end BehaviorRegistrar
