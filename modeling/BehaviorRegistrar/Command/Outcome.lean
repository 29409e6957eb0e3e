import BehaviorRegistrar.Json.Printer
import BehaviorRegistrar.Log
import BehaviorRegistrar.Options.Basic
import BehaviorRegistrar.FileTree.Disk

/-!
# Outcomes of commands

A command ends with a status, what it printed, the report it made on an error, and its log. A
failure that goes into a JSON result has a code, a message, and the property or the path it is
about.
-/

namespace BehaviorRegistrar

structure Outcome where
  status : Nat
  stdout : String
  /-- The message of the report made on standard error, if one was made. -/
  report : Option String
  log : List Log.Event

namespace Outcome

/-- A run that succeeded. -/
def success (stdout : String) (log : List Log.Event) : Outcome := ⟨0, stdout, none, log⟩

def reported (message : String) (log : List Log.Event) : Outcome := ⟨1, "", some message, log⟩

def failed (stdout : String) (log : List Log.Event) : Outcome := ⟨1, stdout, none, log⟩

end Outcome

namespace Command

inductive FailureCode where
  | invalidOptions
  | invalidOutDir
  | disk
  | plugin
  deriving DecidableEq, Repr

def FailureCode.name : FailureCode → String
  | .invalidOptions => "INVALID_OPTIONS"
  | .invalidOutDir => "INVALID_OUT_DIR"
  | .disk => "IO_ERROR"
  | .plugin => "PLUGIN_ERROR"

structure Failure where
  code : FailureCode
  message : String
  field : Option String
  path : Option Path
  deriving DecidableEq, Repr

/-- A member that is left out when it has no value. -/
def optionalMember (key : String) (value : Option Json) : List (String × Json) :=
  match value with
  | none => []
  | some value => [(key, value)]

namespace Failure

def ofOptions (error : OptionsError) : Failure :=
  ⟨.invalidOptions, error.message, error.property?, none⟩

def ofDisk (fault : DiskFault) (path : Path) : Failure := ⟨.disk, fault.message, none, some path⟩

def toJson (failure : Failure) : Json :=
  .object <|
    [("code", .string failure.code.name), ("message", .string failure.message)] ++
    optionalMember "field" (failure.field.map .string) ++
    optionalMember "path" (failure.path.map fun path => .string path.text)

end Failure

def line (result : Json) : String := result.compact ++ "\n"

def number (n : Nat) : Json := .number (.integer n)

end Command

end BehaviorRegistrar
