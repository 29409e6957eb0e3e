import BehaviorRegistrar.Command.Outcome
import BehaviorRegistrar.Loader
import BehaviorRegistrar.Output

/-!
# Transforming one module

The options are checked before the module is read. The text goes to a file when one is named, and
otherwise to standard output or into the JSON result. A file that cannot be written is reported on
standard error in every mode.
-/

namespace BehaviorRegistrar.Command

structure TransformRequest where
  file : Path
  outfile : Option Path
  options : Except OptionsError Options

structure TransformResult where
  file : Path
  name : Option String
  outfile : Option Path
  hotReload : Bool
  code : Option String
  size : Nat
  duration : Nat
  failure : Option Failure

namespace TransformResult

def ofFailure (request : TransformRequest) (failure : Failure) (duration : Nat) : TransformResult :=
  ⟨request.file, none, request.outfile, false, none, 0, duration, some failure⟩

def toJson (result : TransformResult) : Json :=
  .object <|
    [("ok", .bool result.failure.isNone), ("file", .string result.file.text)] ++
    optionalMember "name" (result.name.map .string) ++
    optionalMember "outfile" (result.outfile.map fun path => .string path.text) ++
    [("hmr", .bool result.hotReload)] ++
    optionalMember "code" (result.code.map .string) ++
    [("size_bytes", number result.size), ("duration_ms", number result.duration)] ++
    optionalMember "error" (result.failure.map Failure.toJson)

end TransformResult

namespace Transform

def target : String := "behaviors::commands::transform"

def transformed (file name : String) (hotReload : Bool) : Log.Event :=
  ⟨.debug, target, [("message", .string "transformed behavior"), ("file", .string file),
    ("name", .string name), ("hmr", .bool hotReload)]⟩

def wrote (file outfile : String) (size : Nat) : Log.Event :=
  ⟨.info, target, [("message", .string s!"{file} -> {outfile} ({size} bytes)")]⟩

variable {m : Type → Type} [Monad m] [Host m]

def run (json : Bool) (runNumber : Nat) (request : TransformRequest) : m Outcome := do
  match request.options with
  | .error error =>
    if json then
      return .failed (line (TransformResult.ofFailure request (.ofOptions error) 0).toJson) []
    else return .reported error.message []
  | .ok options =>
    match ← Output.readSource request.file with
    | .error fault =>
      if json then
        let failure := Failure.ofDisk fault request.file
        return .failed (line (TransformResult.ofFailure request failure (← Host.elapsed)).toJson) []
      else return .reported fault.message []
    | .ok source =>
      let id := request.file.text
      let name := ModuleId.moduleName id
      let code := Loader.standard.transformWith source id options
      let size := code.utf8ByteSize
      let event := transformed id name options.hotReload
      match request.outfile with
      | none =>
        if json then
          let result : TransformResult :=
            ⟨request.file, some name, none, options.hotReload, some code, size, ← Host.elapsed,
              none⟩
          return .success (line result.toJson) [event]
        else return .success code [event]
      | some outfile =>
        match ← Output.write runNumber outfile code with
        | .error fault => return .reported fault.message [event]
        | .ok () =>
          let log := [event, wrote id outfile.text size]
          if json then
            let result : TransformResult :=
              ⟨request.file, some name, some outfile, options.hotReload, none, size, ← Host.elapsed,
                none⟩
            return .success (line result.toJson) log
          else return .success "" log

end Transform

end BehaviorRegistrar.Command
