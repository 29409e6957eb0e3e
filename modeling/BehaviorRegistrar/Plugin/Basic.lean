/-!
# Plugins

A plugin takes part in a build through three hooks: at the start, for every module, and at the end.
A hook may fail. For a module it gives new code or passes the module on. A hook that a plugin does
not set does nothing.
-/

namespace BehaviorRegistrar

inductive Hook where
  | buildStart
  | transform
  | buildEnd
  deriving DecidableEq, Repr

def Hook.name : Hook → String
  | .buildStart => "buildStart"
  | .transform => "transform"
  | .buildEnd => "buildEnd"

inductive Stage where
  | pre
  | normal
  | post
  deriving DecidableEq, Repr

namespace Stage

def rank : Stage → Nat
  | .pre => 0
  | .normal => 1
  | .post => 2

def name : Stage → String
  | .pre => "pre"
  | .normal => "normal"
  | .post => "post"

def ofName? : String → Option Stage
  | "pre" => some .pre
  | "normal" => some .normal
  | "post" => some .post
  | _ => none

end Stage

structure PluginError where
  plugin : String
  hook : String
  message : String
  deriving DecidableEq, Repr

def PluginError.text (error : PluginError) : String :=
  s!"[{error.plugin}] {error.hook}: {error.message}"

abbrev HookResult (α : Type) := Except PluginError α

/-- A plugin. Its hooks are given the working directory of the build. It is assumed that its stage never
changes and that each hook is a function of what it is given, without a state of its own. -/
structure Plugin where
  name : String
  stage : Stage := .normal
  /-- Whether calls of its hooks are entered in the journal of a run. -/
  journalled : Bool := false
  buildStart : (cwd : String) → HookResult Unit := fun _ => .ok ()
  /-- New code for the module with an identifier, or nothing to pass it on. -/
  transform : (code id cwd : String) → HookResult (Option String) := fun _ _ _ => .ok none
  buildEnd : (cwd : String) → HookResult Unit := fun _ => .ok ()

end BehaviorRegistrar
