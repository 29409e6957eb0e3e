import BehaviorRegistrar.Command.Build
import BehaviorRegistrar.Command.Transform
import BehaviorRegistrar.CommandLine
import BehaviorRegistrar.Version

/-!
# The program

A command line is read and its task carried out on a host. Relative paths are taken from the working
directory, which an option can change.
-/

namespace BehaviorRegistrar.Program

open Command CommandLine

structure Surroundings where
  currentDirectory : Path
  /-- A number that no other run has at the same time. -/
  runNumber : Nat
  /-- The base filter of the log in text. -/
  logFilter : Option String

/-- What a run came to. -/
structure Result where
  outcome : Outcome
  /-- Whether log events are written as JSON. -/
  jsonLog : Bool
  /-- Whether the usage is to be shown. -/
  usage : Bool

/-- The result of a command line that was not carried out. -/
def halted : Halt → Result
  | .mistake => ⟨⟨2, "", none, []⟩, false, true⟩
  | .help => ⟨.success "" [], false, true⟩
  | .version => ⟨.success (versionText ++ "\n") [], false, false⟩

def printVersion (json : Bool) : Outcome :=
  if json then .success (line (.object [("version", .string version)])) []
  else .success (versionText ++ "\n") []

def loaderOptions : OptionsSource → Except OptionsError Options
  | .switch hotReload => .ok ⟨hotReload⟩
  | .text json => Options.ofText json

variable {m : Type → Type} [Monad m] [Host m]

def perform (json : Bool) (runNumber : Nat) (cwd : Path) : Task → m Outcome
  | .version => return printVersion json
  | .transform file outfile source =>
    Transform.run json runNumber {
      file := cwd.join (.ofString file)
      outfile := outfile.map fun path => cwd.join (.ofString path)
      options := loaderOptions source }
  | .build root outDir source =>
    Build.run json runNumber cwd {
      root := cwd.join (.ofString root)
      outDir := cwd.join (.ofString outDir)
      options := loaderOptions source }

/-- Carries out a command line that is in order. Of the log, what the filter admits is kept. -/
def invoke (surroundings : Surroundings) (invocation : Invocation) : m Result := do
  let cwd := (invocation.cwd.map Path.ofString).getD surroundings.currentDirectory
  let outcome ← perform invocation.json surroundings.runNumber cwd invocation.task
  let filter := Log.Filter.ofRequests surroundings.logFilter invocation.verbosity
  return ⟨{ outcome with log := outcome.log.filter filter.admits }, invocation.json, false⟩

def run (surroundings : Surroundings) (arguments : List String) : m Result :=
  match CommandLine.read arguments with
  | .error halt => return halted halt
  | .ok invocation => invoke surroundings invocation

end BehaviorRegistrar.Program
