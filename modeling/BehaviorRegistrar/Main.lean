import BehaviorRegistrar.Program

/-!
# The program on the machine it runs on

The operations of a host are those of the machine, and time counts from the start of the run. What a
run came to is printed: the output, the log and the report of an error, and the status is returned.
-/

namespace BehaviorRegistrar

abbrev OnMachine := ReaderT Nat IO

namespace OnMachine

open Log

def faultOf : IO.Error → DiskFault
  | .noFileOrDirectory .. => .notFound
  | .alreadyExists .. => .alreadyThere
  | .resourceBusy .. => .busy
  | .inappropriateType _ code details =>
    -- some operations give the number of the fault with its sign turned
    if code = 20 ∨ 0 - code = 20 then .notADirectory
    else if code = 21 ∨ 0 - code = 21 then .isADirectory
    else .other details
  | .invalidArgument _ code details =>
    if code = 36 ∨ 0 - code = 36 then .nameTooLong else .other details
  | other => .other (toString other)

def attempt {α : Type} (operation : IO α) : IO (Except DiskFault α) := do
  try return .ok (← operation) catch error => return .error (faultOf error)

def place (path : Path) := (⟨path.text, ""⟩ : IO.FS.DirEntry).root

/-- The tree at `real`, with the names and kinds of its nodes. The walk reaches it by `path`, and
faults go by that path. -/
partial def loadTree (real path : Path) : ExceptT (Path × DiskFault) IO Node := do
  if ← (place real).isDir then
    let found ← (.mk do
      return (← attempt (place real).readDir).mapError fun fault => (path, fault) :
        ExceptT (Path × DiskFault) IO (Array IO.FS.DirEntry))
    let entries ← found.foldlM
      (fun (entries : Entries) entry => do
        let name := entry.fileName.toList
        return entries.set name (← loadTree (real.join ⟨name⟩) (path.join ⟨name⟩)))
      Entries.empty
    return .directory entries
  else return .file []

instance : Host OnMachine where
  File := IO.FS.Handle
  readFile path := attempt do return (← IO.FS.readBinFile path.text).data.toList
  makeDirectory path := attempt (IO.FS.createDir path.text)
  isDirectory path := (place path).isDir
  createFile path := attempt (IO.FS.Handle.mk path.text .write)
  appendFile file bytes := attempt (file.write ⟨bytes.toArray⟩)
  syncFile file := attempt file.flush
  renameFile source target := attempt (IO.FS.rename source.text target.text)
  removeFile path := attempt (IO.FS.removeFile path.text)
  location? path := do
    try
      let place ← IO.FS.realPath path.text
      return some ((Path.ofString place.toString).parts.filter (· ≠ []))
    catch _ => return none
  subtree path := do
    match ← attempt (place path).metadata with
    | .error fault => return .error (path, fault)
    | .ok _ => (loadTree (.ofString (← IO.FS.realPath path.text).toString) path).run
  elapsed := do return (← IO.monoMsNow) - (← read)

/-- An event as a line of the log. -/
def logLine (json : Bool) (event : Event) : String :=
  if json then
    (Json.object [("level", .string event.level.name), ("target", .string event.target),
      ("fields", .object event.fields)]).compact
  else
    " ".intercalate <|
      event.level.name :: event.fields.map fun field => field.1 ++ "=" ++ field.2.compact

def usage : String :=
  String.intercalate "\n" [
    "Register Drupal behavior modules on window.Drupal.behaviors",
    "",
    "Usage: behaviors [--json] [--cwd PATH] [-v] COMMAND",
    "",
    "Commands:",
    "  version",
    "  transform FILE [-o PATH] [--enable-hmr | --options JSON]",
    "  build [ROOT] --out-dir DIR [--enable-hmr | --options JSON]"]

def present (result : Program.Result) : IO Unit := do
  for event in result.outcome.log do
    IO.eprintln (logLine result.jsonLog event)
  IO.print result.outcome.stdout
  if result.usage then
    if result.outcome.status = 0 then IO.println usage else IO.eprintln usage
  if let some message := result.outcome.report then
    IO.eprintln s!"Error: {message}"

end OnMachine

end BehaviorRegistrar

def main (arguments : List String) : IO UInt32 := do
  let start ← IO.monoMsNow
  let surroundings : BehaviorRegistrar.Program.Surroundings := {
    currentDirectory := .ofString (← IO.currentDir).toString
    runNumber := (← IO.monoNanosNow) % 4194304
    logFilter := ← IO.getEnv "RUST_LOG" }
  let result ← (BehaviorRegistrar.Program.run surroundings arguments :
    BehaviorRegistrar.OnMachine _).run start
  BehaviorRegistrar.OnMachine.present result
  return UInt32.ofNat result.outcome.status
