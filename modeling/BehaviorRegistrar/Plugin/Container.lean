import BehaviorRegistrar.Plugin.Basic

/-!
# Plugin containers

A container keeps its plugins in the order of their stages, and within a stage in the order in which
they were added. A hook visits the plugins in that order until one fails. The visit and its outcome
come from the container alone and leave it as it is.
-/

namespace BehaviorRegistrar

structure Container where
  cwd : String
  plugins : List Plugin

/-- The plugins that a hook visited, and what came of it. -/
structure Visit (α : Type) where
  visited : List Plugin
  result : HookResult α

namespace Visit

variable {α : Type}

def journal (visit : Visit α) (hook : Hook) : List String :=
  (visit.visited.filter Plugin.journalled).map fun plugin => s!"{plugin.name}:{hook.name}"

/-- Visits plugins in turn, each with what the one before it gave, until one fails. -/
def through (call : Plugin → α → HookResult α) : List Plugin → α → Visit α
  | [], value => ⟨[], .ok value⟩
  | plugin :: rest, value =>
    match call plugin value with
    | .error error => ⟨[plugin], .error error⟩
    | .ok next =>
      let later := through call rest next
      ⟨plugin :: later.visited, later.result⟩

end Visit

namespace Container

def empty (cwd : String) : Container := ⟨cwd, []⟩

/-- Puts a plugin behind all plugins of its own and of earlier stages. -/
def insert (plugin : Plugin) : List Plugin → List Plugin
  | [] => [plugin]
  | first :: rest =>
    if plugin.stage.rank < first.stage.rank then plugin :: first :: rest
    else first :: insert plugin rest

def add (container : Container) (plugin : Plugin) : Container :=
  { container with plugins := insert plugin container.plugins }

def buildStart (container : Container) : Visit Unit :=
  .through (fun plugin _ => plugin.buildStart container.cwd) container.plugins ()

/-- Passes a module through the plugins. One that gives no code leaves the code as it is. -/
def transform (container : Container) (code id : String) : Visit String :=
  .through (fun plugin code => (plugin.transform code id container.cwd).map (·.getD code))
    container.plugins code

def buildEnd (container : Container) : Visit Unit :=
  .through (fun plugin _ => plugin.buildEnd container.cwd) container.plugins ()

end Container

end BehaviorRegistrar
