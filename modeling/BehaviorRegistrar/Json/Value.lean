import BehaviorRegistrar.Json.Number

/-!
# JSON values

An object keeps its members in the order written, repeated keys included. Its members by key are in
ascending order of the keys, each key once, with the last value written.
-/

namespace BehaviorRegistrar

inductive Json where
  | null
  | bool (value : Bool)
  | number (value : Json.Number)
  | string (value : String)
  | array (items : List Json)
  | object (members : List (String × Json))

namespace Json

instance : Inhabited Json := ⟨.null⟩

inductive Kind where
  | null
  | boolean
  | number
  | string
  | array
  | object
  deriving DecidableEq, Repr

def Kind.name : Kind → String
  | .null => "null"
  | .boolean => "boolean"
  | .number => "number"
  | .string => "string"
  | .array => "array"
  | .object => "object"

def kind : Json → Kind
  | .null => .null
  | .bool _ => .boolean
  | .number _ => .number
  | .string _ => .string
  | .array _ => .array
  | .object _ => .object

def setMember (key : String) (value : Json) : List (String × Json) → List (String × Json)
  | [] => [(key, value)]
  | member :: rest =>
    if key < member.1 then (key, value) :: member :: rest
    else if key = member.1 then (key, value) :: rest
    else member :: setMember key value rest

/-- The members by key: ascending, each key once, the last value written. The order of texts by code
points is that of their UTF-8 bytes. -/
def byKey (members : List (String × Json)) : List (String × Json) :=
  members.foldl (fun sorted member => setMember member.1 member.2 sorted) []

end Json

end BehaviorRegistrar
