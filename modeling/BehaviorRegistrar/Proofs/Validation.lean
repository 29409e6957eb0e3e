import BehaviorRegistrar.Proofs.Arguments
import BehaviorRegistrar.Proofs.Endings

/-!
# The options of a run

Loader options that are given as a text decide a run only through what the text is accepted as. When
it is refused, the run says so before it looks at the disk. When it is accepted, the run is the one of
the same command line with the switch for hot reload, or without it.
-/

namespace BehaviorRegistrar

open Json Command CommandLine

/-- The outcome of a run whose options are refused. -/
structure Outcome.IsRefused (outcome : Outcome) (json : Bool) (error : OptionsError) : Prop where
  status : outcome.status = 1
  log : outcome.log = []
  /-- Without a JSON result the message is reported. -/
  plain : json = false → outcome.stdout = "" ∧ outcome.report = some error.message
  /-- The JSON result has the message and the property that it is about. -/
  told : json = true → outcome.report = none ∧ ∃ members details,
    outcome.stdout = line (.object members) ∧ valuesOf "ok" members = [.bool false] ∧
      valuesOf "error" members = [.object details] ∧
        valuesOf "code" details = [.string "INVALID_OPTIONS"] ∧
          valuesOf "message" details = [.string error.message] ∧
            valuesOf "field" details = (error.property?.map .string).toList

theorem Outcome.isRefused_refusal {json : Bool} {error : OptionsError} {result : Json}
    {members : List (String × Json)} (hresult : result = .object members)
    (htells : TellsEnd (some (.ofOptions error)) members) :
    (Outcome.refusal json result error.message []).IsRefused json error := by
  cases json with
  | false => exact ⟨rfl, rfl, fun _ => ⟨rfl, rfl⟩, by simp⟩
  | true =>
    refine ⟨rfl, rfl, by simp, fun _ => ⟨rfl, ?_⟩⟩
    obtain ⟨details, hdetails, hdescribed⟩ := (Failure.ofOptions error).exists_details
    have herror : valuesOf "error" members = [.object details] := by
      rw [htells.error, ← hdetails]
      rfl
    exact ⟨members, details, congrArg line hresult, htells.ok, herror, hdescribed.code,
      hdescribed.message, hdescribed.field⟩

namespace Program

theorem perform_withSource {source other : OptionsSource} {task : Task}
    (hsource : task.source? = some source) (hother : loaderOptions other = loaderOptions source)
    {m : Type → Type} [Monad m] [Host m] (json : Bool) (runNumber : Nat) (cwd : Path) :
    (perform json runNumber cwd (task.withSource other) : m Outcome) =
      perform json runNumber cwd task := by
  cases task with
  | version => cases hsource
  | transform file outfile own =>
    cases hsource
    simp only [Task.withSource, perform, hother]
  | build root outDir own =>
    cases hsource
    simp only [Task.withSource, perform, hother]

/-- A task with refused options answers so on every disk, which it leaves as it is. -/
theorem perform_refused {source : OptionsSource} {task : Task} {error : OptionsError}
    (hsource : task.source? = some source) (herror : loaderOptions source = .error error)
    (json : Bool) (runNumber : Nat) (cwd : Path) :
    ∃ outcome : Outcome, outcome.IsRefused json error ∧
      ∀ disk, (perform json runNumber cwd task : OnDisk Outcome) disk = (outcome, disk) := by
  cases task with
  | version => cases hsource
  | transform file outfile own =>
    cases hsource
    let request : TransformRequest := ⟨cwd.join (.ofString file),
      outfile.map fun path => cwd.join (.ofString path), .error error⟩
    obtain ⟨members, hmembers, htells, -⟩ :=
      (TransformResult.ofFailure request (.ofOptions error) 0).exists_members
    refine ⟨_, Outcome.isRefused_refusal hmembers htells, fun disk => ?_⟩
    simp only [perform, herror]
    cases json <;> rfl
  | build root outDir own =>
    cases hsource
    let result : BuildResult := ⟨cwd.join (.ofString root), cwd.join (.ofString outDir), false, [], 0,
      some (.ofOptions error)⟩
    obtain ⟨members, hmembers, htells⟩ := result.exists_members
    refine ⟨_, Outcome.isRefused_refusal hmembers htells, fun disk => ?_⟩
    simp only [perform, herror]
    cases json <;> rfl

/-- Loader options in a text decide a run only through what the text is accepted as. A refused text is
the whole answer, on every disk. An accepted one does what the switch for hot reload does, or no
option, in its place. -/
theorem run_optionsText (surroundings : Surroundings) {arguments : List String}
    {invocation : Invocation} {text : String} (h : CommandLine.read arguments = .ok invocation)
    (hsource : invocation.task.source? = some (.text text)) :
    (∀ error, Options.ofText text = .error error →
      ∃ outcome : Outcome, outcome.IsRefused invocation.json error ∧
        ∀ disk, (run surroundings arguments : OnDisk Result) disk =
          (⟨outcome, invocation.json, false⟩, disk)) ∧
    ∀ options, Options.ofText text = .ok options →
      ∃ before given behind, arguments = before ++ given ++ behind ∧ GivesOptions text given ∧
        ∀ (m : Type → Type) [Monad m] [Host m],
          (run surroundings arguments : m Result) =
            run surroundings
              (before ++ (if options.hotReload then ["--enable-hmr"] else []) ++ behind) := by
  constructor
  · intro error herror
    obtain ⟨outcome, hrefused, hperform⟩ := perform_refused hsource herror invocation.json
      surroundings.runNumber (workingDirectory surroundings invocation)
    refine ⟨outcome, hrefused, fun disk => ?_⟩
    rw [run_of_read surroundings h, invoke, OnDisk.bind_apply, ← workingDirectory, hperform disk]
    have hlog := hrefused.log
    obtain ⟨status, stdout, report, log⟩ := outcome
    dsimp only at hlog
    subst hlog
    rfl
  · intro options hoptions
    obtain ⟨before, given, behind, hsplit, hgives, hread⟩ := read_without_text h hsource
    refine ⟨before, given, behind, hsplit, hgives, fun m _ _ => ?_⟩
    have hsame : loaderOptions (.switch options.hotReload) = loaderOptions (.text text) :=
      hoptions.symm
    rw [run_of_read surroundings h, run_of_read surroundings (hread options.hotReload), invoke, invoke]
    simp only [perform_withSource hsource hsame]

/-- An array is refused, and an object that turns hot reload on does what the switch does. -/
theorem run_optionsText_menu :
    let surroundings : Surroundings := ⟨.ofString "/", 1, none⟩
    let refused := ["--json", "transform", "menu.behavior.js", "--options=[]"]
    let accepted := ["build", "src", "--options", "\x7b\"enableHmr\": true\x7d", "--out-dir", "dist"]
    (∃ outcome : Outcome, outcome.IsRefused true (.notAnObject .array) ∧
      ∀ disk, (run surroundings refused : OnDisk Result) disk = (⟨outcome, true, false⟩, disk)) ∧
    ∃ before given behind, accepted = before ++ given ++ behind ∧
      GivesOptions "\x7b\"enableHmr\": true\x7d" given ∧
        ∀ disk, (run surroundings accepted : OnDisk Result) disk =
          (run surroundings (before ++ ["--enable-hmr"] ++ behind) : OnDisk Result) disk := by
  intro surroundings refused accepted
  have hrefused : CommandLine.read refused =
      .ok ⟨true, 0, none, .transform "menu.behavior.js" none (.text "[]")⟩ := by rfl
  have haccepted : CommandLine.read accepted =
      .ok ⟨false, 0, none, .build "src" "dist" (.text "\x7b\"enableHmr\": true\x7d")⟩ := by rfl
  have harray : Options.ofText "[]" = .error (.notAnObject .array) := by rfl
  have hobject : Options.ofText "\x7b\"enableHmr\": true\x7d" = .ok ⟨true⟩ :=
    eq_ok_of_toOption (by decide +kernel)
  refine ⟨(run_optionsText surroundings hrefused rfl).1 _ harray, ?_⟩
  obtain ⟨before, given, behind, hsplit, hgives, hrun⟩ :=
    (run_optionsText surroundings haccepted rfl).2 _ hobject
  exact ⟨before, given, behind, hsplit, hgives, fun disk => congrFun (hrun OnDisk) disk⟩

end Program

end BehaviorRegistrar
