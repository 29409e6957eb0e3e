/-!
# Module identifiers

A module is known by its file identifier, a path with either kind of slash. The base name is what
follows the last slash; the stem is the base name without its final extension, where a dot in first
place starts no extension. A behavior file is named `name.behavior.extension`, and the name under
which it registers is the stem up to its first dot.
-/

namespace BehaviorRegistrar.ModuleId

def isSeparator (c : Char) : Bool := c == '/' || c == '\\'

def baseName (id : List Char) : List Char :=
  (id.reverse.takeWhile fun c => !isSeparator c).reverse

/-- A base name without its extension; nothing when it has no extension. The extension starts at
the last dot, and a name is never all extension. -/
def stem? (base : List Char) : Option (List Char) :=
  match base.reverse.dropWhile (· != '.') with
  | _ :: c :: r => some (c :: r).reverse
  | _ => none

def behaviorMark : List Char := ".behavior".toList

/-- The name under which the module registers. It may be empty. -/
def nameOf (id : List Char) : List Char :=
  ((stem? (baseName id)).getD (baseName id)).takeWhile (· != '.')

/-- Whether the identifier follows the naming of behavior files. -/
def isBehavior (id : List Char) : Bool :=
  match stem? (baseName id) with
  | none => false
  | some stem => behaviorMark.isSuffixOf stem && stem != behaviorMark

def moduleName (id : String) : String := String.ofList (nameOf id.toList)

def isBehaviorFile (id : String) : Bool := isBehavior id.toList

end BehaviorRegistrar.ModuleId
