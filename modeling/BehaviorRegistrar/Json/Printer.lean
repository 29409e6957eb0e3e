import BehaviorRegistrar.Json.Quote
import BehaviorRegistrar.Json.Value

/-!
# Writing JSON

A value in its compact form: no blanks, members in their order, strings with the fewest escapes.
-/

namespace BehaviorRegistrar.Json

mutual

/-- The compact form of a value. -/
def print : Json → List Char
  | .null => ['n', 'u', 'l', 'l']
  | .bool true => ['t', 'r', 'u', 'e']
  | .bool false => ['f', 'a', 'l', 's', 'e']
  | .number n => n.text
  | .string s => written s.toList
  | .array items => '[' :: printItems items ++ [']']
  | .object members => '{' :: printMembers members ++ ['}']

def printItems : List Json → List Char
  | [] => []
  | [item] => print item
  | item :: rest => print item ++ ',' :: printItems rest

def printMembers : List (String × Json) → List Char
  | [] => []
  | [(key, value)] => written key.toList ++ ':' :: print value
  | (key, value) :: rest => written key.toList ++ ':' :: print value ++ ',' :: printMembers rest

end

def compact (value : Json) : String := String.ofList (print value)

end BehaviorRegistrar.Json
