import BehaviorRegistrar.Plugin.Basic
import BehaviorRegistrar.Text.Pieces

/-!
# Scripted plugins

A script describes a plugin by data: hooks that fail with given messages, and a template for the
code of a module. Between percent signs a template may name the code, the identifier and the working
directory. Calls of a scripted plugin's hooks are entered in the journal.
-/

namespace BehaviorRegistrar

structure Script where
  name : String
  stage : Stage
  /-- The code that modules are given. Without it they pass. -/
  template : Option String
  /-- The messages of the hooks that fail. -/
  failure : Hook → Option String

namespace Script

/-- Fills pieces in turn: one that stands as it is, one that may be a name. -/
def fillPieces (value? : List Char → Option (List Char)) : List (List Char) → List Char
  | [] => []
  | [plain] => plain
  | plain :: named :: rest => plain ++ (value? named).getD named ++ fillPieces value? rest

/-- Fills a template. Percent signs are marks and vanish; a marked piece that is no name stays. -/
def fill (template code id cwd : String) : String :=
  let value? (piece : List Char) : Option (List Char) :=
    if piece = "code".toList then some code.toList
    else if piece = "id".toList then some id.toList
    else if piece = "cwd".toList then some cwd.toList
    else none
  String.ofList (fillPieces value? (Text.pieces '%' template.toList))

def guard (script : Script) (hook : Hook) : HookResult Unit :=
  match script.failure hook with
  | none => .ok ()
  | some message => .error ⟨script.name, hook.name, message⟩

def plugin (script : Script) : Plugin where
  name := script.name
  stage := script.stage
  journalled := true
  buildStart _ := script.guard .buildStart
  transform code id cwd :=
    (script.guard .transform).map fun _ =>
      script.template.map fun template => fill template code id cwd
  buildEnd _ := script.guard .buildEnd

end Script

end BehaviorRegistrar
