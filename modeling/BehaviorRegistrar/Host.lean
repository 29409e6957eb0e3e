import BehaviorRegistrar.FileTree.Disk

/-!
# Hosts

A host is what a command works on: files, directories and a clock. Commands are written for any
host. On a modelled disk every operation is a function of the disk, a refused one leaves it as it
is, and no time passes. The device of a disk may stop in the middle of the bytes that it is given,
for want of room or for a defect, and what it has stored by then stays.
-/

namespace BehaviorRegistrar

/-- What a command needs from its surroundings. -/
class Host (m : Type → Type) where
  /-- A file that was opened to be written. -/
  File : Type
  /-- The bytes of a file. -/
  readFile : Path → m (Except DiskFault Contents)
  /-- Makes an empty directory. -/
  makeDirectory : Path → m (Except DiskFault Unit)
  /-- Whether a path leads to a directory. -/
  isDirectory : Path → m Bool
  /-- Opens a file, a new one or one that loses its bytes. -/
  createFile : Path → m (Except DiskFault File)
  /-- Puts bytes behind those of an opened file. -/
  appendFile : File → Contents → m (Except DiskFault Unit)
  /-- Waits until the bytes of an opened file are stored for good. -/
  syncFile : File → m (Except DiskFault Unit)
  /-- Moves a file to another path, over a file that is there. -/
  renameFile : Path → Path → m (Except DiskFault Unit)
  /-- Removes a file. -/
  removeFile : Path → m (Except DiskFault Unit)
  /-- The location that a path resolves to, if it does. -/
  location? : Path → m (Option Location)
  /-- The node that a path leads to with all nodes inside it, or the path that could not be visited.
  The bytes of its files are not looked at. -/
  subtree : Path → m (Except (Path × DiskFault) Node)
  /-- Milliseconds since the run began. -/
  elapsed : m Nat

abbrev OnDisk := StateM Disk

/-- What stores the bytes of a disk. -/
structure Device where
  /-- How many of the bytes for a file are stored when not all are, and the fault that is told then. -/
  stop? : Location → (bytes : Contents) → Option (Fin bytes.length × DiskFault)
  /-- Why the bytes of a file may be lost again. -/
  unsynced? : Location → Option DiskFault

namespace Device

def steady : Device := ⟨fun _ _ => none, fun _ => none⟩

def append (device : Device) (file : Location) (bytes : Contents) :
    OnDisk (Except DiskFault Unit) := fun disk =>
  match device.stop? file bytes with
  | none => (.ok (), disk.append file bytes)
  | some (count, fault) => (.error fault, disk.append file (bytes.take count))

def sync (device : Device) (file : Location) : OnDisk (Except DiskFault Unit) := fun disk =>
  match device.unsynced? file with
  | none => (.ok (), disk)
  | some fault => (.error fault, disk)

end Device

namespace OnDisk

def attempt (change : Disk → Except DiskFault Disk) : OnDisk (Except DiskFault Unit) := fun disk =>
  match change disk with
  | .ok changed => (.ok (), changed)
  | .error fault => (.error fault, disk)

def create (path : Path) : OnDisk (Except DiskFault Location) := fun disk =>
  match disk.create path with
  | .ok (file, created) => (.ok file, created)
  | .error fault => (.error fault, disk)

end OnDisk

abbrev Device.host (device : Device) : Host OnDisk where
  File := Location
  readFile path := fun disk => (disk.read path, disk)
  makeDirectory path := OnDisk.attempt fun disk => disk.makeDirectory path
  isDirectory path := fun disk => (disk.isDirectory path, disk)
  createFile path := OnDisk.create path
  appendFile file bytes := device.append file bytes
  syncFile file := device.sync file
  renameFile source target := OnDisk.attempt fun disk => disk.rename source target
  removeFile path := OnDisk.attempt fun disk => disk.remove path
  location? path := fun disk => ((disk.resolve path).toOption, disk)
  subtree path := fun disk => ((disk.node path).mapError fun fault => (path, fault), disk)
  elapsed := pure 0

instance : Host OnDisk := Device.steady.host

end BehaviorRegistrar
