import BehaviorRegistrar.Host
import BehaviorRegistrar.Text.Utf8

/-!
# Writing output files

An output is first written beside its target and then moved over it, so that a reader never sees
half of it. The directories on the way are made when they are missing. When the move is refused the
file beside the target is removed again; when its bytes are not stored, it is left there. A file can
be moved over another one.
-/

namespace BehaviorRegistrar.Output

variable {m : Type → Type} [Monad m] [Host m]

/-- Makes a directory and those on the way to it. One that is there already is welcome. -/
def makeDirectories (path : Path) : m (Except DiskFault Unit) := do
  if path.spelling = [] then return .ok ()
  else
    match ← Host.makeDirectory path with
    | .ok () => return .ok ()
    | .error .notFound =>
      match _h : path.parent? with
      | none => return .error .notFound
      | some parent =>
        match ← makeDirectories parent with
        | .error fault => return .error fault
        | .ok () =>
          match ← Host.makeDirectory path with
          | .ok () => return .ok ()
          | .error fault =>
            if ← Host.isDirectory path then return .ok () else return .error fault
    | .error fault => if ← Host.isDirectory path then return .ok () else return .error fault
termination_by path.spelling.length
decreasing_by exact Path.length_lt_of_parent? _h

/-- The name under which an output is written at first. It tells runs apart by their number. -/
def temporaryName (path : Path) (run : Nat) : Path :=
  ⟨'.' :: path.fileName?.getD "behavior".toList ++ ".tmp.".toList ++ (toString run).toList⟩

def directory (path : Path) : Path := path.parent?.getD ⟨['.']⟩

def temporary (path : Path) (run : Nat) : Path := (directory path).join (temporaryName path run)

def write (run : Nat) (path : Path) (content : String) : m (Except DiskFault Unit) := do
  match ← makeDirectories (directory path) with
  | .error fault => return .error fault
  | .ok () =>
    match ← Host.createFile (temporary path run) with
    | .error fault => return .error fault
    | .ok file =>
      match ← Host.appendFile file (Text.encode content) with
      | .error fault => return .error fault
      | .ok () =>
        match ← Host.syncFile file with
        | .error fault => return .error fault
        | .ok () =>
          match ← Host.renameFile (temporary path run) path with
          | .ok () => return .ok ()
          | .error fault =>
            let _ ← Host.removeFile (temporary path run)
            return .error fault

def readSource (path : Path) : m (Except DiskFault String) := do
  return (← Host.readFile path).map Text.decode

end BehaviorRegistrar.Output
