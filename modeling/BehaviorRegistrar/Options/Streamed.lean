import BehaviorRegistrar.Options.Basic
import BehaviorRegistrar.Text.Quoted

/-!
# Options read in one pass

Options can also be read straight from JSON text, without a value in between. One pass stops at the
first thing out of order, be it a key, a kind or a character. It takes an array too, whose one item
stands for the one property, and it takes no key twice.
-/

namespace BehaviorRegistrar.Options

open Json Text

inductive Wanted where
  | record
  | boolean
  deriving DecidableEq, Repr

def Wanted.name : Wanted → String
  | .record => "struct LoaderOptions"
  | .boolean => "a boolean"

inductive StreamCause where
  | malformed (cause : Cause)
  | unexpected (found : Json) (wanted : Wanted)
  | unknownKey (key : String)
  | repeatedKey (key : String)

/-- A found value in words. Arrays and objects go by their kind, the others show what they hold. -/
def found : Json → String
  | .null => "null"
  | .bool value => s!"boolean `{value}`"
  | .number (.integer value) => s!"integer `{value}`"
  | .number (.double value) => s!"floating point `{String.ofList (Decimal.textOf value)}`"
  | .string value => s!"string {String.ofList (quoted value.toList)}"
  | .array _ => "sequence"
  | .object _ => "map"

def StreamCause.message : StreamCause → String
  | .malformed cause => cause.message
  | .unexpected value wanted => s!"invalid type: {found value}, expected {wanted.name}"
  | .unknownKey key => s!"unknown field `{key}`, expected `{hotReloadKey}`"
  | .repeatedKey key => s!"duplicate field `{key}`"

abbrev StreamFault := Fault StreamCause

def refuse {α : Type} (cause : Cause) (s : List Char) : Except StreamFault α :=
  .error (.next (.malformed cause) s)

def readOther {α : Type} (wanted : Wanted) (s : List Char) : Except StreamFault α :=
  match readScalar s with
  | .error fault => .error (fault.map .malformed)
  | .ok (value, rest) => .error (.here (.unexpected value wanted) rest)

def readBoolean (s : List Char) : Except StreamFault (Bool × List Char) :=
  match skip s with
  | [] => refuse .endInValue []
  | '[' :: r => .error (.here (.unexpected (.array []) .boolean) ('[' :: r))
  | '{' :: r => .error (.here (.unexpected (.object []) .boolean) ('{' :: r))
  | c :: r =>
    match readScalar (c :: r) with
    | .error fault => .error (fault.map .malformed)
    | .ok (.bool value, rest) => .ok (value, rest)
    | .ok (other, rest) => .error (.here (.unexpected other .boolean) rest)

/-- The place of a fault in a key: behind the key, the blanks after it and a closing brace. -/
def behindKey (cause : StreamCause) (s : List Char) : StreamFault :=
  match skip s with
  | '}' :: r => .here cause r
  | r => .here cause r

def readKey (s : List Char) : Except StreamFault (String × List Char) :=
  match readString s with
  | .error fault => .error (fault.map .malformed)
  | .ok (key, rest) => .ok (String.ofList key, rest)

def readClosing (s : List Char) : Except StreamFault (List Char) :=
  match skip s with
  | [] => refuse .endInObject []
  | '}' :: r => .ok r
  | ',' :: r =>
    match skip r with
    | [] => refuse .endInValue []
    | '}' :: t => refuse .trailingComma ('}' :: t)
    | '"' :: t => do
      let (key, rest) ← readKey t
      if key = hotReloadKey then .error (behindKey (.repeatedKey key) rest)
      else .error (behindKey (.unknownKey key) rest)
    | c :: t => refuse .keyNotString (c :: t)
  | c :: r => refuse .noObjectSeparator (c :: r)

def readObject (s : List Char) : Except StreamFault (Options × List Char) :=
  match skip s with
  | [] => refuse .endInObject []
  | '}' :: r => .ok (standard, r)
  | '"' :: r => do
    let (key, rest) ← readKey r
    if key = hotReloadKey then
      match skip rest with
      | [] => refuse .endInObject []
      | ':' :: t => do
        let (value, rest) ← readBoolean t
        let rest ← readClosing rest
        return (⟨value⟩, rest)
      | c :: t => refuse .noColon (c :: t)
    else .error (behindKey (.unknownKey key) rest)
  | c :: r => refuse .keyNotString (c :: r)

def readArray (s : List Char) : Except StreamFault (Options × List Char) :=
  match skip s with
  | [] => refuse .endInList []
  | ']' :: r => .ok (standard, r)
  | c :: r => do
    let (value, rest) ← readBoolean (c :: r)
    match skip rest with
    | [] => refuse .endInList []
    | ']' :: t => return (⟨value⟩, t)
    | ',' :: t =>
      match skip t with
      | ']' :: u => refuse .trailingComma (']' :: u)
      | u => refuse .trailingText u
    | d :: t => refuse .trailingText (d :: t)

/-- The options that a whole text holds, read in one pass. -/
def ofStream (text : List Char) : Except StreamFault Options := do
  let (options, rest) ← match skip text with
    | [] => refuse .endInValue []
    | '{' :: r => readObject r
    | '[' :: r => readArray r
    | c :: r => readOther .record (c :: r)
  match skip rest with
  | [] => return options
  | c :: r => refuse .trailingText (c :: r)

end BehaviorRegistrar.Options
