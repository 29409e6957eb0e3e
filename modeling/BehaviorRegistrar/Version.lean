/-!
# The version
-/

namespace BehaviorRegistrar

def version : String := "0.2.0"

def versionText : String := s!"behaviors {version}"

end BehaviorRegistrar
