import BehaviorRegistrar.Text.Place

/-!
# Faults in JSON text

A fault has a cause and a place, which is the number of bytes of the text behind it. It lies either
at the front of what is left to read, or one byte further when a byte was looked at and refused. The
end of the text has no further byte.
-/

namespace BehaviorRegistrar.Json

open Text

inductive Cause where
  | endInValue
  | endInList
  | endInObject
  | endInString
  | noValue
  | misspeltLiteral
  | noColon
  | noListSeparator
  | noObjectSeparator
  | badNumber
  | numberOutOfRange
  | badEscape
  | loneSurrogate
  | brokenSurrogatePair
  | controlCharacter
  | keyNotString
  | trailingComma
  | trailingText
  | tooDeep
  deriving DecidableEq, Repr

def Cause.message : Cause → String
  | .endInValue => "EOF while parsing a value"
  | .endInList => "EOF while parsing a list"
  | .endInObject => "EOF while parsing an object"
  | .endInString => "EOF while parsing a string"
  | .noValue => "expected value"
  | .misspeltLiteral => "expected ident"
  | .noColon => "expected `:`"
  | .noListSeparator => "expected `,` or `]`"
  | .noObjectSeparator => "expected `,` or `\x7d`"
  | .badNumber => "invalid number"
  | .numberOutOfRange => "number out of range"
  | .badEscape => "invalid escape"
  | .loneSurrogate => "lone leading surrogate in hex escape"
  | .brokenSurrogatePair => "unexpected end of hex escape"
  | .controlCharacter => "control character (\\u0000-\\u001F) found while parsing a string"
  | .keyNotString => "key must be a string"
  | .trailingComma => "trailing comma"
  | .trailingText => "trailing characters"
  | .tooDeep => "recursion limit exceeded"

/-- A cause with the number of bytes behind its place. -/
structure Fault (κ : Type) where
  cause : κ
  left : Nat
  deriving DecidableEq, Repr

namespace Fault

variable {κ : Type}

def here (cause : κ) (rest : List Char) : Fault κ := ⟨cause, byteLength rest⟩

def next (cause : κ) (rest : List Char) : Fault κ := ⟨cause, byteLength rest - 1⟩

def map {κ' : Type} (f : κ → κ') (fault : Fault κ) : Fault κ' := ⟨f fault.cause, fault.left⟩

def place (text : List Char) (fault : Fault κ) : Place := Place.ofBytesLeft text fault.left

end Fault

end BehaviorRegistrar.Json
