import BehaviorRegistrar.Proofs.Build.Outputs
import BehaviorRegistrar.Proofs.Paths

/-!
# The log of a run

All events of a run come from the program's own parts, whose names start with that of the program. The
level that requests for more detail set is for another name, so they change no run. When the base filter
is a level, it alone decides: the modules that a run transformed are told one by one from debugging
detail on, and otherwise not at all.
-/

namespace BehaviorRegistrar

open Json Command CommandLine

namespace Log

variable {event : Event} {log : List Event} {word base : String} {rank : Nat}

namespace Event

def text? (key : String) (event : Event) : Option String :=
  match valuesOf key event.fields with
  | [.string text] => some text
  | _ => none

def transformed? (event : Event) : Option String :=
  if event.level = .debug ∧ event.text? "message" = some "transformed behavior" then
    event.text? "file"
  else none

def IsOwn (event : Event) : Prop := "behaviors::".toList <+: event.target.toList

theorem level_of_transformed? {file : String} (h : event.transformed? = some file) :
    event.level = .debug := by
  rw [transformed?] at h
  split at h
  · rename_i htold
    exact htold.1
  · cases h

end Event

/-- The modules that a log says were transformed, as often and in the order in which it says so. -/
def transformedFiles (log : List Event) : List String := log.filterMap Event.transformed?

theorem rankOf?_plain (h : rankOf? word = some rank) : ',' ∉ word.toList ∧ word.toList ≠ [] := by
  have hlevels : ∀ level ∈ ["off", "0", "error", "1", "warn", "2", "info", "3", "debug", "4", "trace",
      "5"], ',' ∉ level.toList ∧ level.toList ≠ [] := by decide
  have hlevel : String.ofList (word.toList.map Char.toLower) ∈ ["off", "0", "error", "1", "warn", "2",
      "info", "3", "debug", "4", "trace", "5"] := by
    unfold rankOf? at h
    split at h
    case h_13 => cases h
    all_goals rename_i hword; rw [hword]; simp
  obtain ⟨hcomma, hne⟩ := hlevels _ hlevel
  rw [String.toList_ofList] at hcomma hne
  exact ⟨fun hmem => hcomma (List.mem_map.mpr ⟨',', hmem, by decide⟩),
    fun hnil => hne (by rw [hnil, List.map_nil])⟩

namespace Filter

theorem ofText?_level (h : rankOf? base = some rank) : ofText? base = some [⟨"", rank⟩] := by
  obtain ⟨hcomma, hne⟩ := rankOf?_plain h
  have hpieces : (Text.pieces ',' base.toList).filter (· ≠ []) = [base.toList] := by
    rw [Text.pieces_of_not_mem hcomma]
    simp [hne]
  rw [ofText?, hpieces]
  simp [Directive.ofText?, h]

/-- A directive that does not speak of an event has no say in it. -/
theorem admits_append {directive : Directive} (h : directive.covers event = false) (filter : Filter) :
    admits (filter ++ [directive]) event = admits filter event := by
  simp [admits, decisive?, List.filter_append, h]

/-- A level lets all events through that are no more detailed. -/
theorem admits_level : admits [⟨"", rank⟩] event = decide (event.level.rank ≤ rank) := by
  simp [admits, decisive?, Directive.covers]

/-- The directive for requests speaks of none of the program's own events. -/
theorem covers_requested (h : event.IsOwn) (rank : Nat) :
    Directive.covers ⟨"behaviors_cli", rank⟩ event = false := by
  have hshorter : "behaviors::".toList.length ≤ "behaviors_cli".toList.length := by decide
  have hapart : ¬ "behaviors::".toList <+: "behaviors_cli".toList := by decide
  rw [Directive.covers, Bool.eq_false_iff, ne_eq, List.isPrefixOf_iff_prefix]
  exact fun hrequested => hapart (List.prefix_of_prefix_length_le h hrequested hshorter)

/-- Requests for more detail do not change what is let through of the program's own events. -/
theorem admits_ofRequests (h : event.IsOwn) (base : Option String) (verbosity : Nat) :
    (ofRequests base verbosity).admits event =
      ((base.bind ofText?).getD [⟨"", Level.warn.rank⟩]).admits event :=
  admits_append (covers_requested h _) _

theorem admits_ofRequests_level (h : event.IsOwn) (hbase : rankOf? base = some rank)
    (verbosity : Nat) :
    (ofRequests (some base) verbosity).admits event = decide (event.level.rank ≤ rank) := by
  rw [admits_ofRequests h, Option.bind_some, ofText?_level hbase, Option.getD_some, admits_level]

end Filter

/-- What a level leaves of the modules that a log tells of: all of them or none. -/
theorem transformedFiles_filter (hown : ∀ event ∈ log, event.IsOwn) (hbase : rankOf? base = some rank)
    (verbosity : Nat) :
    transformedFiles (log.filter (Filter.ofRequests (some base) verbosity).admits) =
      if Level.debug.rank ≤ rank then transformedFiles log else [] := by
  have hadmits : ∀ event ∈ log, ∀ file, event.transformed? = some file →
      (Filter.ofRequests (some base) verbosity).admits event = decide (Level.debug.rank ≤ rank) := by
    intro event hmem file hfile
    rw [Filter.admits_ofRequests_level (hown event hmem) hbase, Event.level_of_transformed? hfile]
  rw [transformedFiles, List.filterMap_filter]
  by_cases hrank : Level.debug.rank ≤ rank
  · rw [if_pos hrank]
    refine List.filterMap_congr fun event hmem => ?_
    cases hfile : event.transformed? with
    | none => simp
    | some file => simp [hadmits event hmem file hfile, hrank]
  · rw [if_neg hrank, List.filterMap_eq_nil_iff]
    intro event hmem
    cases hfile : event.transformed? with
    | none => simp
    | some file => simp [hadmits event hmem file hfile, hrank]

end Log

/-- Whether an outcome has only the program's own events in its log and, when it is a success, tells of
each of some modules in turn that it was transformed. -/
structure Outcome.Tells (outcome : Outcome) (modules : List Path) : Prop where
  own : ∀ event ∈ outcome.log, event.IsOwn
  transformed : outcome.status = 0 → Log.transformedFiles outcome.log = modules.map Path.text

namespace Outcome

variable {json : Bool} {result : Json} {message : String} {log : List Log.Event}
  {modules : List Path}

theorem tells_reported (hown : ∀ event ∈ log, event.IsOwn) : (reported message log).Tells modules :=
  ⟨hown, by simp [reported]⟩

theorem tells_refusal (hown : ∀ event ∈ log, event.IsOwn) :
    (refusal json result message log).Tells modules := by
  cases json with
  | false => exact tells_reported hown
  | true => exact ⟨hown, by simp [refusal, failed]⟩

theorem tells_finished (hown : ∀ event ∈ log, event.IsOwn)
    (htold : Log.transformedFiles log = modules.map Path.text) :
    (finished json result message log).Tells modules := by
  cases json <;> exact ⟨hown, fun _ => htold⟩

end Outcome

namespace Command

open Outcome

theorem isOwn_of_target {event : Log.Event} (h : event.target ∈ [Transform.target, Build.target]) :
    event.IsOwn := by
  have hparts : ∀ part ∈ [Transform.target, Build.target],
      "behaviors::".toList <+: part.toList := by decide
  exact hparts _ h

namespace Transform

variable {json : Bool} {runNumber : Nat} {request : TransformRequest} {options : Options}
  {disk after : Disk} {outcome : Outcome}

@[simp] theorem isOwn_event : (event request options).IsOwn :=
  isOwn_of_target (by simp [event, transformed])

@[simp] theorem isOwn_wrote (file outfile : String) (size : Nat) : (wrote file outfile size).IsOwn :=
  isOwn_of_target (by simp [wrote])

@[simp] theorem transformed?_event : (event request options).transformed? = some request.file.text := by
  simp [event, transformed, Log.Event.transformed?, Log.Event.text?]

@[simp] theorem transformed?_wrote (file outfile : String) (size : Nat) :
    (wrote file outfile size).transformed? = none := by
  simp [wrote, Log.Event.transformed?]

theorem Ends.tells (h : Ends json runNumber request disk outcome after) :
    outcome.Tells [request.file] := by
  cases h with
  | refused hoptions => exact tells_refusal (by simp)
  | unread hoptions hread => exact tells_refusal (by simp)
  | printed log hoptions hread houtfile hlog =>
    subst hlog
    exact tells_finished (by simp) (by simp [Log.transformedFiles])
  | unwritten log hoptions hread houtfile hwrite hlog =>
    subst hlog
    exact tells_reported (by simp)
  | written log hoptions hread houtfile hwrite hlog =>
    subst hlog
    exact tells_finished (by simp) (by simp [Log.transformedFiles])

end Transform

namespace Build

@[simp] theorem isOwn_discovered (count : Nat) (root : String) : (discovered count root).IsOwn :=
  isOwn_of_target (by simp [discovered])

@[simp] theorem isOwn_finished (count : Nat) (outDir : String) (elapsed : Nat) :
    (finished count outDir elapsed).IsOwn :=
  isOwn_of_target (by simp [finished])

@[simp] theorem transformed?_discovered (count : Nat) (root : String) :
    (discovered count root).transformed? = none := by
  simp [discovered, Log.Event.transformed?, Log.Event.text?]

@[simp] theorem transformed?_transformed (file name : String) :
    (transformed file name).transformed? = some file := by
  simp [transformed, Log.Event.transformed?, Log.Event.text?]

@[simp] theorem transformed?_finished (count : Nat) (outDir : String) (elapsed : Nat) :
    (finished count outDir elapsed).transformed? = none := by
  simp [finished, Log.Event.transformed?]

theorem isOwn_events {results : Results} : ∀ event ∈ events results, event.IsOwn := by
  intro event hmem
  rw [events, List.mem_filterMap] at hmem
  obtain ⟨⟨path, _ | built⟩, -, hevent⟩ := hmem
  · cases hevent
  · cases hevent
    exact isOwn_of_target (by simp [transformed])

/-- When all modules were built, there is an event for each of them. -/
theorem transformedFiles_events {results : Results} {records : List BuiltFile}
    (h : collect results = .ok records) :
    Log.transformedFiles (events results) = (results.map Prod.fst).map Path.text := by
  induction results generalizing records with
  | nil => rfl
  | cons first rest ih =>
    obtain ⟨path, error | built⟩ := first
    · cases h
    · rw [collect] at h
      cases hrest : collect rest with
      | error failure =>
        rw [hrest] at h
        cases h
      | ok others =>
        have hevents : events ((path, .ok built) :: rest) =
            transformed path.text built.name :: events rest := rfl
        have htold := ih hrest
        rw [Log.transformedFiles] at htold ⊢
        rw [hevents, List.filterMap_cons, transformed?_transformed, htold]
        rfl

namespace Job

variable {job : Job} {json : Bool} {disk after : Disk} {outcome : Outcome}

theorem Ends.tells (h : job.Ends json disk outcome after) : outcome.Tells (job.sources disk) := by
  cases h with
  | inPlace hsame => exact tells_refusal (by simp)
  | unwalked hsame hsearch => exact tells_reported (by simp)
  | failed log hsame hsearch hcollect hlog =>
    subst hlog
    exact tells_refusal (by simpa using isOwn_events)
  | @built files records log hsame hsearch hcollect hlog =>
    subst hlog
    have hsources : job.sources disk = files := by rw [sources_eq_search, hsearch]; rfl
    refine tells_finished ?_ ?_
    · simpa [or_imp, forall_and] using isOwn_events
    · have hevents := transformedFiles_events hcollect
      rw [steps_sources, Log.transformedFiles] at hevents
      simp [Log.transformedFiles, hsources, hevents]

end Job

end Build

end Command

namespace Program

open Log

def modulesOf (cwd : Path) (disk : Disk) : Task → List Path
  | .version => []
  | .transform file _ _ => [cwd.join (.ofString file)]
  | .build root outDir _ =>
    Build.found (cwd.join (.ofString root)) (cwd.join (.ofString outDir)) disk

theorem perform_tells (json : Bool) (runNumber : Nat) (cwd : Path) (task : Task) (disk : Disk) :
    ((perform json runNumber cwd task : OnDisk Outcome) disk).1.Tells (modulesOf cwd disk task) := by
  cases task with
  | version => cases json <;> exact ⟨fun event hmem => absurd hmem List.not_mem_nil, fun _ => rfl⟩
  | transform file outfile source => exact (Transform.ends_run json runNumber _ disk).tells
  | build root outDir source =>
    cases hoptions : loaderOptions source with
    | error error =>
      rw [perform, hoptions, Build.run_refused]
      exact Outcome.tells_refusal (by simp)
    | ok options =>
      let job : Build.Job :=
        ⟨runNumber, cwd, cwd.join (.ofString root), cwd.join (.ofString outDir), options⟩
      rw [perform, hoptions]
      exact (job.ends_run json disk).tells

variable {arguments others : List String} {invocation : Invocation}

/-- Requests for more detail change nothing of a run. -/
theorem run_verbosity (surroundings : Surroundings) (h : CommandLine.read arguments = .ok invocation)
    {verbosity : Nat}
    (hothers : CommandLine.read others = .ok { invocation with verbosity := verbosity })
    (disk : Disk) :
    (run surroundings others : OnDisk Result) disk =
      (run surroundings arguments : OnDisk Result) disk := by
  have htells := perform_tells invocation.json surroundings.runNumber
    (workingDirectory surroundings invocation) invocation.task disk
  rw [run_apply surroundings h, run_apply surroundings hothers]
  have hkept : ∀ event ∈ ((perform invocation.json surroundings.runNumber
      (workingDirectory surroundings invocation) invocation.task : OnDisk Outcome) disk).1.log,
      (Filter.ofRequests surroundings.logFilter verbosity).admits event =
        (Filter.ofRequests surroundings.logFilter invocation.verbosity).admits event := by
    intro event hmem
    rw [Filter.admits_ofRequests (htells.own event hmem),
      Filter.admits_ofRequests (htells.own event hmem)]
  rw [← List.filter_congr hkept]
  rfl

/-- What the log of a run tells of the modules that it transformed, when the base filter is a level. A
run that succeeds tells of each of them in turn exactly when that level lets debugging detail through, or
when there are none; under any other level it tells of none. Requests for more detail make no
difference. -/
theorem run_tells_transformed (surroundings : Surroundings) {base : String} {rank : Nat}
    (hread : CommandLine.read arguments = .ok invocation)
    (hbase : surroundings.logFilter = some base) (hrank : rankOf? base = some rank) (disk : Disk) :
    let result := (run surroundings arguments : OnDisk Result) disk
    let modules := (modulesOf (workingDirectory surroundings invocation) disk invocation.task).map
      Path.text
    (result.1.outcome.status = 0 →
      (transformedFiles result.1.outcome.log = modules ↔
        Level.debug.rank ≤ rank ∨ modules = [])) ∧
    (rank < Level.debug.rank → transformedFiles result.1.outcome.log = []) ∧
    ∀ others verbosity,
      CommandLine.read others = .ok { invocation with verbosity := verbosity } →
      (run surroundings others : OnDisk Result) disk = result := by
  intro result modules
  have htells := perform_tells invocation.json surroundings.runNumber
    (workingDirectory surroundings invocation) invocation.task disk
  have hlog := transformedFiles_filter htells.own hrank invocation.verbosity
  have hresult : result = _ := run_apply surroundings hread disk
  rw [hbase] at hresult
  rw [hresult]
  refine ⟨fun hstatus => ?_, fun hbelow => ?_, fun others verbosity hothers => ?_⟩
  · rw [hlog, htells.transformed hstatus]
    by_cases hlevel : Level.debug.rank ≤ rank
    · exact iff_of_true (if_pos hlevel) (.inl hlevel)
    · rw [if_neg hlevel, or_iff_right hlevel]
      exact eq_comm
  · rw [hlog, if_neg hbelow.not_ge]
  · rw [← hresult]
    exact run_verbosity surroundings hread hothers disk

/-- The build of `src` with debugging detail in the base filter tells of its module. Without, it does not,
and asking for more detail is no help. -/
theorem run_tells_transformed_menu :
    let detailed : Surroundings := ⟨.ofString "/", 1, some "debug"⟩
    let plain : Surroundings := ⟨.ofString "/", 1, some "info"⟩
    let disk := Build.Job.menuDisk
    let arguments := ["--json", "-v", "build", "src", "--out-dir", "dist"]
    let others := ["--json", "-vv", "build", "src", "--out-dir", "dist"]
    ((run detailed arguments : OnDisk Result) disk).1.outcome.status = 0 ∧
      transformedFiles ((run detailed arguments : OnDisk Result) disk).1.outcome.log =
        ["/src/menu.behavior.js"] ∧
      transformedFiles ((run plain arguments : OnDisk Result) disk).1.outcome.log = [] ∧
      (run plain others : OnDisk Result) disk = (run plain arguments : OnDisk Result) disk := by
  intro detailed plain disk arguments others
  let invocation : Invocation := ⟨true, 1, none, .build "src" "dist" (.switch false)⟩
  have hread : CommandLine.read arguments = .ok invocation := rfl
  have hothers : CommandLine.read others = .ok { invocation with verbosity := 2 } := rfl
  have hstatus : ((run detailed arguments : OnDisk Result) disk).1.outcome.status = 0 := by
    decide +kernel
  have hmodules : (modulesOf (workingDirectory detailed invocation) disk invocation.task).map
      Path.text = ["/src/menu.behavior.js"] := by decide +kernel
  obtain ⟨htold, -⟩ := run_tells_transformed detailed hread rfl
    (show rankOf? "debug" = some 4 by decide) disk
  obtain ⟨-, huntold, hsame⟩ := run_tells_transformed plain hread rfl
    (show rankOf? "info" = some 3 by decide) disk
  exact ⟨hstatus, ((htold hstatus).mpr (.inl (by decide))).trans hmodules, huntold (by decide),
    hsame others 2 hothers⟩

/-- A transformation that succeeds and is asked for more detail, but does not tell of its module. -/
theorem run_untold_menu :
    let surroundings : Surroundings := ⟨.ofString "/src", 1, some "warn"⟩
    let arguments := ["--json", "-v", "transform", "menu.behavior.js"]
    let invocation : Invocation :=
      ⟨true, 1, none, .transform "menu.behavior.js" none (.switch false)⟩
    let outcome := ((run surroundings arguments : OnDisk Result) Build.Job.menuDisk).1.outcome
    CommandLine.read arguments = .ok invocation ∧ rankOf? "warn" = some Level.warn.rank ∧
      outcome.status = 0 ∧
        (modulesOf (workingDirectory surroundings invocation) Build.Job.menuDisk
          invocation.task).map Path.text = ["/src/menu.behavior.js"] ∧
          transformedFiles outcome.log = [] := by
  intro surroundings arguments invocation outcome
  exact ⟨rfl, by decide, by decide +kernel, by decide +kernel, by decide +kernel⟩

end Program

end BehaviorRegistrar
