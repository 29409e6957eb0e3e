import BehaviorRegistrar.Json.Reader
import BehaviorRegistrar.Json.Printer

/-!
# Loader options

The loader knows one option, whether modules take part in hot reload. Options come as a JSON value
or not at all; a value is checked before any module text is looked at. The members of an object are
visited in the order of their keys, and the first one that is not in order decides the error.
-/

namespace BehaviorRegistrar

structure Options where
  /-- Whether the hot-reload footer is appended. -/
  hotReload : Bool
  deriving DecidableEq, Repr

/-- Why options are refused. -/
inductive OptionsError where
  | notAnObject (found : Json.Kind)
  | unknownProperty (name : String)
  | notABoolean (name : String) (found : Json.Kind)
  | malformed (cause : Json.Cause) (place : Text.Place)
  deriving DecidableEq, Repr

namespace OptionsError

def property? : OptionsError → Option String
  | .unknownProperty name => some name
  | .notABoolean name _ => some name
  | .notAnObject _ => none
  | .malformed _ _ => none

def message (error : OptionsError) : String :=
  "Drupal Behaviors Loader: options" ++
    match error with
    | .notAnObject found => s!" should be an object, got {found.name}"
    | .unknownProperty name =>
      s!" has an unknown property '{name}'. These properties are valid: enableHmr"
    | .notABoolean name found => s!".{name} should be a boolean, got {found.name}"
    | .malformed cause place => s!" are not valid JSON: {place.describe cause.message}"

end OptionsError

namespace Options

def standard : Options := ⟨false⟩

def hotReloadKey : String := "enableHmr"

def schema : String :=
  String.intercalate "\n" [
    "\x7b",
    "  \"type\": \"object\",",
    "  \"properties\": \x7b",
    "    \"enableHmr\": \x7b \"type\": \"boolean\" \x7d",
    "  \x7d",
    "\x7d"]

def takeMember (options : Options) (member : String × Json) : Except OptionsError Options :=
  if member.1 = hotReloadKey then
    match member.2 with
    | .bool value => .ok { options with hotReload := value }
    | other => .error (.notABoolean member.1 other.kind)
  else .error (.unknownProperty member.1)

/-- The options that a value holds. Without a value the standard options are in force. -/
def ofValue : Option Json → Except OptionsError Options
  | none => .ok standard
  | some (.object members) => (Json.byKey members).foldlM takeMember standard
  | some other => .error (.notAnObject other.kind)

def ofText (text : String) : Except OptionsError Options :=
  match Json.read text.toList with
  | .error fault => .error (.malformed fault.cause (fault.place text.toList))
  | .ok value => ofValue (some value)

def toJson (options : Options) : Json := .object [(hotReloadKey, .bool options.hotReload)]

end Options

end BehaviorRegistrar
