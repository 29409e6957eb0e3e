import BehaviorRegistrar.Loader
import BehaviorRegistrar.Plugin.Basic

/-!
# The behaviors plugin

Behavior files go through the standard loader, all other modules pass. The plugin runs before those
of the normal stage, so that these see the registered text.
-/

namespace BehaviorRegistrar.Plugin

def behaviors (options : Options) : Plugin where
  name := "drupal-behaviors"
  stage := .pre
  transform code id _ :=
    .ok (if ModuleId.isBehaviorFile id then some (Loader.standard.transformWith code id options)
      else none)

def behaviorsOf (options : Option Json) : Except OptionsError Plugin :=
  (Options.ofValue options).map behaviors

end BehaviorRegistrar.Plugin
