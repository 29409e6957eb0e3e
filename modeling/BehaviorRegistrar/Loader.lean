import BehaviorRegistrar.Export.Registration
import BehaviorRegistrar.HotReload
import BehaviorRegistrar.ModuleId
import BehaviorRegistrar.Options.Basic

/-!
# The loader

The loader registers a module under the name that its file identifier gives, in the registry of one
global object, and appends the hot-reload footer when the options ask for it. Options are checked
before the text is touched.
-/

namespace BehaviorRegistrar

/-- A loader for the registry of one global object. -/
structure Loader where
  /-- The global object, as it is spelled under `window`. -/
  root : String
  deriving DecidableEq, Repr

namespace Loader

/-- The global object of a loader that is given none. -/
def standardRoot : String := "Drupal"

def standard : Loader := ⟨standardRoot⟩

def path (loader : Loader) (id : String) : String :=
  Export.registrationPath loader.root (ModuleId.moduleName id)

/-- The module text registered under the name of its identifier. -/
def transformWith (loader : Loader) (content id : String) (options : Options) : String :=
  let registered := (Export.register content (loader.path id)).text
  if options.hotReload then
    registered ++ HotReload.footer (loader.path id) (ModuleId.moduleName id) loader.root
  else registered

def transform (loader : Loader) (content id : String) (options : Option Json) :
    Except OptionsError String :=
  (Options.ofValue options).map (loader.transformWith content id)

end Loader

end BehaviorRegistrar
