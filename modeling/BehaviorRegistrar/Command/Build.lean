import BehaviorRegistrar.Command.Outcome
import BehaviorRegistrar.FileTree.Walk
import BehaviorRegistrar.Output
import BehaviorRegistrar.Plugin.Behaviors
import BehaviorRegistrar.Plugin.Container

/-!
# Building a directory

All behavior files below a root go through the plugins, and each is written below the output
directory at its path relative to the root. The output directory must not be the root, and what lies
in it is no source.

It is assumed that the modules are handled one after the other in their order, each whatever becomes
of the others, and that the first failure in this order is the one that is told. A program that hands
them to several threads promises neither: it may take them in another order, leave some out after a
failure, and tell another failure.
-/

namespace BehaviorRegistrar.Command

structure BuildRequest where
  root : Path
  outDir : Path
  options : Except OptionsError Options

structure BuiltFile where
  file : Path
  outfile : Path
  name : String
  size : Nat
  deriving DecidableEq, Repr

def BuiltFile.toJson (built : BuiltFile) : Json :=
  .object [("file", .string built.file.text), ("outfile", .string built.outfile.text),
    ("name", .string built.name), ("size_bytes", number built.size)]

def BuiltFile.line (built : BuiltFile) : String :=
  s!"  {built.file.text} -> {built.outfile.text} ({built.name})\n"

structure BuildResult where
  root : Path
  outDir : Path
  hotReload : Bool
  files : List BuiltFile
  duration : Nat
  failure : Option Failure

def BuildResult.toJson (result : BuildResult) : Json :=
  .object <|
    [("ok", .bool result.failure.isNone), ("root", .string result.root.text),
      ("out_dir", .string result.outDir.text), ("hmr", .bool result.hotReload),
      ("files", .array (result.files.map BuiltFile.toJson)),
      ("duration_ms", number result.duration)] ++
    optionalMember "error" (result.failure.map Failure.toJson)

inductive ModuleError where
  | disk (fault : DiskFault)
  | plugin (error : PluginError)
  deriving DecidableEq, Repr

namespace ModuleError

def message : ModuleError → String
  | .disk fault => s!"IO error: {fault.message}"
  | .plugin error => error.text

def failure (path : Path) : ModuleError → Failure
  | .disk fault => .ofDisk fault path
  | .plugin error => ⟨.plugin, error.text, none, some path⟩

end ModuleError

namespace Build

def target : String := "behaviors::commands::build"

def discovered (count : Nat) (root : String) : Log.Event :=
  ⟨.debug, target, [("message", .string "discovered behavior modules"), ("count", number count),
    ("root", .string root)]⟩

def transformed (file name : String) : Log.Event :=
  ⟨.debug, target, [("message", .string "transformed behavior"), ("file", .string file),
    ("name", .string name)]⟩

def finished (count : Nat) (outDir : String) (elapsed : Nat) : Log.Event :=
  ⟨.info, target, [("message", .string s!"{count} behavior modules -> {outDir} ({elapsed}ms)")]⟩

/-- The modules that were built, or the one with its error that is assumed to be told: the first. -/
def collect : List (Path × Except ModuleError BuiltFile) →
    Except (Path × ModuleError) (List BuiltFile)
  | [] => .ok []
  | (path, .error error) :: _ => .error (path, error)
  | (_, .ok built) :: rest => (collect rest).map (built :: ·)

def events (results : List (Path × Except ModuleError BuiltFile)) : List Log.Event :=
  results.filterMap fun result =>
    match result.2 with
    | .error _ => none
    | .ok built => some (transformed result.1.text built.name)

variable {m : Type → Type} [Monad m] [Host m]

/-- Whether two paths resolve to the same directory. When one of them does not resolve they are
compared by their components. -/
def sameDirectory (a b : Path) : m Bool := do
  match ← Host.location? a, ← Host.location? b with
  | some x, some y => return x == y
  | _, _ => return a.same b

def buildFile (container : Container) (runNumber : Nat) (root outDir file : Path) :
    m (Except ModuleError BuiltFile) := do
  match ← Output.readSource file with
  | .error fault => return .error (.disk fault)
  | .ok source =>
    match (container.transform source file.text).result with
    | .error error => return .error (.plugin error)
    | .ok code =>
      let relative := (root.below? file).getD file
      let outfile := outDir.join relative
      match ← Output.write runNumber outfile code with
      | .error fault => return .error (.disk fault)
      | .ok () =>
        return .ok ⟨relative, outfile, ModuleId.moduleName file.text, code.utf8ByteSize⟩

/-- Builds modules, by assumption in turn and all of them. -/
def buildFiles (container : Container) (runNumber : Nat) (root outDir : Path) :
    List Path → m (List (Path × Except ModuleError BuiltFile))
  | [] => return []
  | file :: rest => do
    let result ← buildFile container runNumber root outDir file
    let results ← buildFiles container runNumber root outDir rest
    return (file, result) :: results

def runModules (json : Bool) (runNumber : Nat) (container : Container) (hotReload : Bool)
    (request : BuildRequest) (files : List Path) : m Outcome := do
  let found := discovered files.length request.root.text
  match container.buildStart.result with
  | .error error => return .reported error.text [found]
  | .ok () =>
    let results ← buildFiles container runNumber request.root request.outDir files
    let log := found :: events results
    match container.buildEnd.result with
    | .error error => return .reported error.text log
    | .ok () =>
      match collect results with
      | .error (path, error) =>
        if json then
          let result : BuildResult :=
            ⟨request.root, request.outDir, hotReload, [], ← Host.elapsed, some (error.failure path)⟩
          return .failed (line result.toJson) log
        else return .reported s!"{path.text}: {error.message}" log
      | .ok built =>
        let elapsed ← Host.elapsed
        let log := log ++ [finished built.length request.outDir.text elapsed]
        if json then
          let result : BuildResult :=
            ⟨request.root, request.outDir, hotReload, built, elapsed, none⟩
          return .success (line result.toJson) log
        else return .success (String.join (built.map BuiltFile.line)) log

/-- Builds a directory. `cwd` is the working directory that plugins are told. -/
def run (json : Bool) (runNumber : Nat) (cwd : Path) (request : BuildRequest) : m Outcome := do
  match request.options with
  | .error error =>
    if json then
      let result : BuildResult :=
        ⟨request.root, request.outDir, false, [], ← Host.elapsed, some (.ofOptions error)⟩
      return .failed (line result.toJson) []
    else return .reported error.message []
  | .ok options =>
    if ← sameDirectory request.root request.outDir then
      let message := s!"output directory {request.outDir.text} must differ from the source root"
      if json then
        let failure : Failure := ⟨.invalidOutDir, message, none, some request.outDir⟩
        let result : BuildResult :=
          ⟨request.root, request.outDir, options.hotReload, [], ← Host.elapsed, some failure⟩
        return .failed (line result.toJson) []
      else return .reported message []
    else
      let search := Node.findBehaviorFiles request.root request.outDir
      match (← Host.subtree request.root).bind search with
      | .error (path, fault) =>
        return .reported s!"IO error for operation on {path.text}: {fault.message}" []
      | .ok files =>
        runModules json runNumber ((Container.empty cwd.text).add (.behaviors options))
          options.hotReload request files

end Build

end BehaviorRegistrar.Command
