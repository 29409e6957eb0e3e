import BehaviorRegistrar.Proofs.Arguments
import BehaviorRegistrar.Proofs.Channels
import BehaviorRegistrar.Proofs.Delivery
import BehaviorRegistrar.Proofs.Disk.Spellings

/-!
# Builds into their own root

A build is refused for its output directory when the two directories are one. When both resolve, that is
a matter of the entries they resolve to: it does not hang on how they are spelled or from where they are
taken. When one of them does not, their components are compared. A refused build leaves the disk as it
is, and no other build ends in the same words.

What resolves is not quite what is there for other operations. A directory that lies too deep is there
and does not resolve, and a path that is too long to be opened can be resolved.
-/

namespace BehaviorRegistrar

open Json Command CommandLine

namespace Command

/-- The JSON result of a build is read as it is printed while its numbers have 64 bits. -/
theorem BuildResult.isPlain (result : BuildResult)
    (hfiles : ∀ built ∈ result.files, built.size < Number.significandLimit)
    (hduration : result.duration < Number.significandLimit) : IsPlain depthLimit result.toJson := by
  have hbuilt : ∀ item ∈ result.files.map BuiltFile.toJson, IsPlain 125 item := by
    intro item hitem
    obtain ⟨built, hmem, rfl⟩ := List.mem_map.mp hitem
    apply IsPlain.object
    simp only [List.forall_mem_cons]
    exact ⟨.string .., .string .., .string .., isPlain_number 124 (hfiles built hmem), by simp⟩
  have hfailure : ∀ value ∈ result.failure.map Failure.toJson, IsPlain 126 value := by
    intro value hvalue
    obtain ⟨failure, -, rfl⟩ := Option.map_eq_some_iff.mp hvalue
    exact failure.isPlain 125
  apply IsPlain.object
  simp only [List.forall_mem_append, List.forall_mem_cons]
  exact ⟨⟨.bool .., .string .., .string .., .bool .., .array hbuilt, isPlain_number 126 hduration,
    by simp⟩, isPlain_optionalMember _ hfailure⟩

namespace Build.Job

/-- The outcome of a build that is refused for its output directory. -/
structure RefusesOutDir (job : Job) (json : Bool) (outcome : Outcome) : Prop where
  status : outcome.status = 1
  /-- Without a JSON result the message is reported. -/
  plain : json = false → outcome.stdout = "" ∧ outcome.report = some job.inPlaceMessage
  /-- With one, the output is read as the result, which names the directory. -/
  told : json = true → outcome.report = none ∧ ∃ members details,
    Json.read outcome.stdout.toList = .ok (.object members) ∧
      valuesOf "ok" members = [.bool false] ∧ valuesOf "error" members = [.object details] ∧
        valuesOf "code" details = [.string "INVALID_OUT_DIR"] ∧
          valuesOf "message" details = [.string job.inPlaceMessage] ∧
            valuesOf "path" details = [.string job.outDir.text]

variable {job : Job} {json : Bool} {disk after : Disk} {outcome : Outcome}

end Build.Job

end Command

namespace Program

structure BuildCommand where
  surroundings : Surroundings
  arguments : List String
  invocation : Invocation
  root : String
  outDir : String
  source : OptionsSource
  options : Options
  read_arguments : CommandLine.read arguments = .ok invocation
  task_eq : invocation.task = .build root outDir source
  accepted : loaderOptions source = .ok options

namespace BuildCommand

def base (command : BuildCommand) : Path :=
  workingDirectory command.surroundings command.invocation

def job (command : BuildCommand) : Build.Job where
  runNumber := command.surroundings.runNumber
  cwd := command.base
  root := command.base.join (.ofString command.root)
  outDir := command.base.join (.ofString command.outDir)
  options := command.options

def run (command : BuildCommand) : OnDisk Result :=
  Program.run command.surroundings command.arguments

/-- Whether the build is refused for its output directory. -/
def IsRefused (command : BuildCommand) (disk : Disk) : Prop :=
  command.job.RefusesOutDir command.invocation.json (command.run disk).1.outcome

variable {command other : BuildCommand} {disk : Disk}

end BuildCommand

end Program

end BehaviorRegistrar
