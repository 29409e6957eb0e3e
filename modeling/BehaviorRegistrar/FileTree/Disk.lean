import BehaviorRegistrar.FileTree.Basic
import BehaviorRegistrar.Path
import BehaviorRegistrar.Text.Place

/-!
# Disks

A disk is a file tree with a current directory. A path is followed part by part: a name has to be an
entry of the directory reached so far, and `..` leads to the directory that holds it. What is behind
a slash is looked for in a directory, be it only the empty part after a final slash. Names have a
greatest length, and so have the spellings that operations take. A path is resolved whatever the
length of its spelling, but the path from the top to every name on the way has to be within that
length.

All files and directories may be read and written, and names are texts.
-/

namespace BehaviorRegistrar

inductive DiskFault where
  | notFound
  | busy
  | alreadyThere
  | notADirectory
  | isADirectory
  | nameTooLong
  | other (message : String)
  deriving DecidableEq, Repr

def DiskFault.message : DiskFault → String
  | .notFound => "No such file or directory (os error 2)"
  | .busy => "Device or resource busy (os error 16)"
  | .alreadyThere => "File exists (os error 17)"
  | .notADirectory => "Not a directory (os error 20)"
  | .isADirectory => "Is a directory (os error 21)"
  | .nameTooLong => "File name too long (os error 36)"
  | .other message => message

/-- A file tree with a current directory. -/
structure Disk where
  top : Node
  here : Location

namespace Disk

def nameLimit : Nat := 255

/-- The most bytes of a spelling that an operation takes. -/
def pathLimit : Nat := 4095

def isTooLong (path : Path) : Bool := pathLimit < Text.byteLength path.spelling

def entriesAt (disk : Disk) (location : Location) : Except DiskFault Entries :=
  match disk.top.at? location with
  | none => .error .notFound
  | some (.file _) => .error .notADirectory
  | some (.directory entries) => .ok entries

def follow (disk : Disk) (location : Location) (part : List Char) : Except DiskFault Location :=
  match disk.entriesAt location with
  | .error fault => .error fault
  | .ok entries =>
    if part = [] ∨ part = ['.'] then .ok location
    else if part = ['.', '.'] then .ok location.dropLast
    else if nameLimit < Text.byteLength part then .error .nameTooLong
    else if (entries.find? part).isSome then .ok (location ++ [part])
    else .error .notFound

def followAll (disk : Disk) (location : Location) (parts : List (List Char)) :
    Except DiskFault Location :=
  parts.foldlM disk.follow location

def start (disk : Disk) (path : Path) : Location := if path.isAbsolute then [] else disk.here

/-- The location that a path leads to. The empty path leads nowhere. -/
def locate (disk : Disk) (path : Path) : Except DiskFault Location :=
  if path.spelling = [] then .error .notFound
  else disk.followAll (disk.start path) path.parts

/-- Whether the path from the top to a location is too long. A slash follows when parts are behind. -/
def isDeep (location : Location) (behind : List (List Char)) : Bool :=
  pathLimit < Text.byteLength (location.flatMap fun name => '/' :: name) + if behind.isEmpty then 0 else 1

/-- Goes one part further, with other parts behind it. A name that leads too deep is refused. -/
def resolvePart (disk : Disk) (location : Location) (part : List Char)
    (behind : List (List Char)) : Except DiskFault Location :=
  match disk.follow location part with
  | .error fault => .error fault
  | .ok next =>
    if location.length < next.length ∧ isDeep next behind then .error .nameTooLong else .ok next

def resolveAll (disk : Disk) (location : Location) :
    List (List Char) → Except DiskFault Location
  | [] => .ok location
  | part :: rest =>
    match disk.resolvePart location part rest with
    | .error fault => .error fault
    | .ok next => disk.resolveAll next rest

/-- The location that a path leads to, as the path from the top to it tells it. -/
def resolve (disk : Disk) (path : Path) : Except DiskFault Location :=
  if path.spelling = [] then .error .notFound
  else disk.resolveAll (disk.start path) path.parts

def node (disk : Disk) (path : Path) : Except DiskFault Node :=
  if isTooLong path then .error .nameTooLong
  else
    match disk.locate path with
    | .error fault => .error fault
    | .ok location =>
      match disk.top.at? location with
      | none => .error .notFound
      | some node => .ok node

def isDirectory (disk : Disk) (path : Path) : Bool :=
  match disk.node path with
  | .ok node => node.isDirectory
  | .error _ => false

def read (disk : Disk) (path : Path) : Except DiskFault Contents :=
  match disk.node path with
  | .error fault => .error fault
  | .ok (.file contents) => .ok contents
  | .ok (.directory _) => .error .isADirectory

/-- An entry named by a path, present or not. -/
structure Slot where
  /-- The directory that holds the entry. -/
  directory : Location
  /-- The entries of that directory. -/
  entries : Entries
  /-- The name of the entry, or `.`, `..` or nothing when the path ends so. -/
  last : List Char
  /-- Whether a slash follows the name. -/
  slash : Bool

def Slot.location (slot : Slot) : Location := slot.directory ++ [slot.last]

def Slot.named (slot : Slot) : Bool :=
  slot.last != [] && slot.last != ['.'] && slot.last != ['.', '.']

def Slot.present? (slot : Slot) : Option Node := slot.entries.find? slot.last

def trimmedParts (path : Path) : List (List Char) :=
  (path.parts.reverse.dropWhile List.isEmpty).reverse

/-- The slot that a path names. Everything before its last part is followed, and a last part that is
too long for a name has no slot. -/
def slot (disk : Disk) (path : Path) : Except DiskFault Slot :=
  if path.spelling = [] then .error .notFound
  else if isTooLong path then .error .nameTooLong
  else
    let parts := trimmedParts path
    let last := parts.getLast?.getD []
    match disk.followAll (disk.start path) parts.dropLast with
    | .error fault => .error fault
    | .ok directory =>
      match disk.entriesAt directory with
      | .error fault => .error fault
      | .ok entries =>
        if nameLimit < Text.byteLength last then .error .nameTooLong
        else .ok ⟨directory, entries, last, path.spelling.getLast? == some '/'⟩

def put (disk : Disk) (slot : Slot) (node : Node) : Disk :=
  { disk with top := disk.top.update (Entries.set slot.last node) slot.directory }

def clear (disk : Disk) (slot : Slot) : Disk :=
  { disk with top := disk.top.update (Entries.erase slot.last) slot.directory }

def makeDirectory (disk : Disk) (path : Path) : Except DiskFault Disk :=
  match disk.slot path with
  | .error fault => .error fault
  | .ok slot =>
    if slot.named then
      match slot.present? with
      | some _ => .error .alreadyThere
      | none => .ok (disk.put slot (.directory .empty))
    else .error .alreadyThere

/-- Makes a file without bytes, or takes the bytes of one that is there, and tells where it is. -/
def create (disk : Disk) (path : Path) : Except DiskFault (Location × Disk) :=
  match disk.slot path with
  | .error fault => .error fault
  | .ok slot =>
    if slot.named ∧ slot.slash = false then
      match slot.present? with
      | some (.directory _) => .error .isADirectory
      | _ => .ok (slot.location, disk.put slot (.file []))
    else .error .isADirectory

def append (disk : Disk) (file : Location) (bytes : Contents) : Disk :=
  { disk with top := disk.top.extend bytes file }

def write (disk : Disk) (path : Path) (contents : Contents) : Except DiskFault Disk :=
  match disk.create path with
  | .error fault => .error fault
  | .ok (file, created) => .ok (created.append file contents)

def rename (disk : Disk) (source target : Path) : Except DiskFault Disk :=
  match disk.slot source with
  | .error fault => .error fault
  | .ok old =>
    match disk.slot target with
    | .error fault => .error fault
    | .ok new =>
      if old.named ∧ new.named then
        match old.present? with
        | none => .error .notFound
        | some (.directory _) => .error .isADirectory
        | some (.file contents) =>
          if old.slash ∨ new.slash then .error .notADirectory
          else
            match new.present? with
            | some (.directory _) => .error .isADirectory
            | _ => .ok ((disk.clear old).put new (.file contents))
      else .error .busy

def remove (disk : Disk) (path : Path) : Except DiskFault Disk :=
  match disk.slot path with
  | .error fault => .error fault
  | .ok slot =>
    if slot.named then
      match slot.present? with
      | none => .error .notFound
      | some (.directory _) => .error .isADirectory
      | some (.file _) => if slot.slash then .error .notADirectory else .ok (disk.clear slot)
    else .error .isADirectory

end Disk

end BehaviorRegistrar
