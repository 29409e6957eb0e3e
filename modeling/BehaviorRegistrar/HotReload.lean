/-!
# The hot-reload footer

Text that is appended to a registered module so that a running page takes up a new version of it:
the module accepts its own updates, attaches when an update is applied, and detaches before the old
version is disposed of. Path, name and global object go in as they are.
-/

namespace BehaviorRegistrar.HotReload

/-- The footer of the behavior `name` kept at `path` in the registry of the global object `root`.
It starts with a line end, so it can follow any module text. -/
def footer (path name root : String) : String :=
  String.intercalate "\n" [
    "",
    "  if (module.hot) \x7b",
    s!"    console.log('{root} Behaviors - attaching: {name}')",
    "    module.hot.accept()",
    "",
    s!"    if (module.hot.status() === 'apply' && typeof {path}.attach === 'function') \x7b",
    s!"      {path}.attach()",
    "    \x7d",
    "",
    "    module.hot.dispose(function () \x7b",
    s!"      if (typeof {path}.detach === 'function') \x7b",
    s!"        console.log('{root} Behaviors - detaching: {name}')",
    s!"        {path}.detach()",
    "      \x7d",
    "    \x7d)",
    "  \x7d"]

end BehaviorRegistrar.HotReload
