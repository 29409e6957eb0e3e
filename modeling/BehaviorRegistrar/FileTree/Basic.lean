/-!
# File trees

A node is a file with its bytes or a directory with its entries. Entries stand in ascending order of
their names, each name once. A location is the list of names that lead to a node from the top.
-/

namespace BehaviorRegistrar

abbrev Name := List Char

abbrev Contents := List UInt8

mutual

inductive Node where
  | file (contents : Contents)
  | directory (entries : Entries)

inductive Entries where
  | empty
  | entry (name : Name) (node : Node) (rest : Entries)

end

instance : Inhabited Node := ⟨.directory .empty⟩

/-- The names that lead to a node from the top. -/
abbrev Location := List Name

namespace Entries

def find? (name : Name) : Entries → Option Node
  | .empty => none
  | .entry first node rest => if first = name then some node else rest.find? name

/-- Gives a name to a node; a node that had the name before is gone. -/
def set (name : Name) (node : Node) : Entries → Entries
  | .empty => .entry name node .empty
  | .entry first old rest =>
    if first = name then .entry name node rest
    else if name < first then .entry name node (.entry first old rest)
    else .entry first old (rest.set name node)

def erase (name : Name) : Entries → Entries
  | .empty => .empty
  | .entry first node rest => if first = name then rest else .entry first node (rest.erase name)

def adjust (name : Name) (change : Node → Node) : Entries → Entries
  | .empty => .empty
  | .entry first node rest =>
    if first = name then .entry first (change node) rest
    else .entry first node (rest.adjust name change)

end Entries

namespace Node

def isDirectory : Node → Bool
  | .file _ => false
  | .directory _ => true

def at? : Location → Node → Option Node
  | [], node => some node
  | _ :: _, .file _ => none
  | name :: rest, .directory entries => (entries.find? name).bind (at? rest)

def extend (bytes : Contents) : Location → Node → Node
  | [], .file contents => .file (contents ++ bytes)
  | [], .directory entries => .directory entries
  | _ :: _, .file contents => .file contents
  | name :: rest, .directory entries => .directory (entries.adjust name (extend bytes rest))

def update (change : Entries → Entries) : Location → Node → Node
  | _, .file contents => .file contents
  | [], .directory entries => .directory (change entries)
  | name :: rest, .directory entries => .directory (entries.adjust name (update change rest))

end Node

mutual

/-- Whether the names in a tree ascend in every directory and are names of entries. -/
def Node.Ordered : Node → Prop
  | .file _ => True
  | .directory entries => entries.Ordered

def Entries.Ordered : Entries → Prop
  | .empty => True
  | .entry name node rest =>
    (name ≠ [] ∧ name ≠ ['.'] ∧ name ≠ ['.', '.'] ∧ '/' ∉ name) ∧ node.Ordered ∧ rest.Ordered ∧
      match rest with
      | .empty => True
      | .entry next _ _ => name < next

end

end BehaviorRegistrar
