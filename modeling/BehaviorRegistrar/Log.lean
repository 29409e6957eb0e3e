import BehaviorRegistrar.Json.Value
import BehaviorRegistrar.Text.Pieces

/-!
# Log events

An event has a level, the part of the program it comes from, and fields. A filter is a list of
directives, each with a target and the most detailed level it lets through; the directive with the
longest target that an event's target starts with decides, and without one the event is dropped. In
text, directives stand between commas; one that is not in order spoils the whole text.
-/

namespace BehaviorRegistrar.Log

inductive Level where
  | error
  | warn
  | info
  | debug
  | trace
  deriving DecidableEq, Repr

namespace Level

def rank : Level → Nat
  | .error => 1
  | .warn => 2
  | .info => 3
  | .debug => 4
  | .trace => 5

def name : Level → String
  | .error => "ERROR"
  | .warn => "WARN"
  | .info => "INFO"
  | .debug => "DEBUG"
  | .trace => "TRACE"

end Level

structure Event where
  level : Level
  target : String
  fields : List (String × Json)

/-- The rank up to which a word lets events through; nothing passes `off`. A word may be written in
capitals, and a rank stands for itself. -/
def rankOf? (word : String) : Option Nat :=
  match String.ofList (word.toList.map Char.toLower) with
  | "off" | "0" => some 0
  | "error" | "1" => some Level.error.rank
  | "warn" | "2" => some Level.warn.rank
  | "info" | "3" => some Level.info.rank
  | "debug" | "4" => some Level.debug.rank
  | "trace" | "5" => some Level.trace.rank
  | _ => none

/-- Lets events of a target through up to a rank. The empty target covers all events. -/
structure Directive where
  target : String
  rank : Nat
  deriving DecidableEq, Repr

namespace Directive

def covers (directive : Directive) (event : Event) : Bool :=
  directive.target.toList.isPrefixOf event.target.toList

def startsTarget (c : Char) : Bool := c.isAlphanum || c == ':' || c == '_' || c == '-'

/-- The directive in a text: a level, a target with a level, or a target for all levels, behind which
an equals sign may stand. -/
def ofText? (s : String) : Option Directive :=
  match rankOf? s with
  | some rank => some ⟨"", rank⟩
  | none =>
    let target := s.toList.takeWhile (· != '=')
    if target.head?.any startsTarget then
      match s.toList.drop target.length with
      | [] | ['='] => some ⟨String.ofList target, Level.trace.rank⟩
      | _ :: level => (rankOf? (String.ofList level)).map (⟨String.ofList target, ·⟩)
    else none

end Directive

abbrev Filter := List Directive

namespace Filter

/-- The directives in a text. A text without any lets errors through. -/
def ofText? (s : String) : Option Filter :=
  match (Text.pieces ',' s.toList).filter (· ≠ []) with
  | [] => some [⟨"", Level.error.rank⟩]
  | texts => texts.mapM fun text => Directive.ofText? (String.ofList text)

/-- The directive that decides about an event, the last one of those with equal targets. -/
def decisive? (filter : Filter) (event : Event) : Option Directive :=
  (filter.filter (·.covers event)).foldl
    (fun best directive =>
      match best with
      | none => some directive
      | some found =>
        if found.target.length ≤ directive.target.length then some directive else some found)
    none

def admits (filter : Filter) (event : Event) : Bool :=
  match filter.decisive? event with
  | none => false
  | some directive => event.level.rank ≤ directive.rank

/-- The filter of a program that is told its base filter in `base` and its own level by a count of
requests for more detail. A base that is missing or not in order lets warnings through. -/
def ofRequests (base : Option String) (verbosity : Nat) : Filter :=
  let own : Level := match verbosity with
    | 0 => .info
    | 1 => .debug
    | _ => .trace
  (base.bind ofText?).getD [⟨"", Level.warn.rank⟩] ++ [⟨"behaviors_cli", own.rank⟩]

end Filter

end BehaviorRegistrar.Log
