import BehaviorRegistrar.FileTree.Disk
import BehaviorRegistrar.ModuleId

/-!
# Walks through a tree

A walk visits a node before the nodes inside it, and the entries of a directory in the order of
their names. Each node goes by the path by which the walk came to it. A path that is to be skipped
is left out with all that lies below it. A directory whose path has become too long for a disk
cannot be opened, and the first such directory ends the search for files.
-/

namespace BehaviorRegistrar

mutual

/-- The nodes from `node` on, which was reached by `path`. -/
def Node.walk (skip : Path → Bool) (path : Path) (node : Node) : List (Path × Node) :=
  if skip path then []
  else (path, node) ::
    match node with
    | .file _ => []
    | .directory entries => entries.walk skip path

def Entries.walk (skip : Path → Bool) (path : Path) : Entries → List (Path × Node)
  | .empty => []
  | .entry name node rest => node.walk skip (path.join ⟨name⟩) ++ rest.walk skip path

end

def isBehaviorModule (visited : Path × Node) : Bool :=
  match visited.2 with
  | .directory _ => false
  | .file _ => ModuleId.isBehavior (visited.1.fileName?.getD visited.1.spelling)

/-- The paths of the behavior files in the tree reached by `root`, without those in `outDir`. -/
def Node.behaviorFiles (root outDir : Path) (node : Node) : List Path :=
  ((node.walk (fun path => path.same outDir) root).filter isBehaviorModule).map Prod.fst

def isClosed (visited : Path × Node) : Bool := visited.2.isDirectory && Disk.isTooLong visited.1

/-- The behavior files in the tree reached by `root`, without those in `outDir`, or the first
directory that cannot be opened. -/
def Node.findBehaviorFiles (root outDir : Path) (node : Node) :
    Except (Path × DiskFault) (List Path) :=
  match (node.walk (fun path => path.same outDir) root).find? isClosed with
  | some visited => .error (visited.1, .nameTooLong)
  | none => .ok (node.behaviorFiles root outDir)

end BehaviorRegistrar
