/-!
# UTF-8

Texts are written to disk as UTF-8. Reading accepts any bytes: each longest stretch that begins a
character but does not complete one is read as one replacement character, and so is every byte that
begins none. The reader is a machine that takes one byte at a time.
-/

namespace BehaviorRegistrar.Text

def encode (s : String) : List UInt8 := s.toUTF8.data.toList

def replacement : Char := '\ufffd'

/-- Between two characters, or within one: then `more` bytes have to follow the next one, which has
to lie between two bounds, and `value` holds the bits read so far. -/
inductive Utf8State where
  | between
  | within (more : Nat) (low high : UInt8) (value : Nat)
  deriving DecidableEq, Repr

namespace Utf8State

/-- The state behind a byte that begins a character of several bytes. The bounds of the byte that
follows keep out overlong forms, surrogates and numbers beyond the last character. -/
def lead? (b : UInt8) : Option Utf8State :=
  if 0xc2 ≤ b ∧ b ≤ 0xdf then some (.within 0 0x80 0xbf (b.toNat - 0xc0))
  else if b = 0xe0 then some (.within 1 0xa0 0xbf 0)
  else if b = 0xed then some (.within 1 0x80 0x9f 13)
  else if 0xe1 ≤ b ∧ b ≤ 0xef then some (.within 1 0x80 0xbf (b.toNat - 0xe0))
  else if b = 0xf0 then some (.within 2 0x90 0xbf 0)
  else if 0xf1 ≤ b ∧ b ≤ 0xf3 then some (.within 2 0x80 0xbf (b.toNat - 0xf0))
  else if b = 0xf4 then some (.within 2 0x80 0x8f 4)
  else none

def begin (b : UInt8) : List Char × Utf8State :=
  if b < 0x80 then ([Char.ofNat b.toNat], .between)
  else match lead? b with
    | some state => ([], state)
    | none => ([replacement], .between)

/-- Takes a byte. One that does not continue the character begins a new one. -/
def step : Utf8State → UInt8 → List Char × Utf8State
  | .between, b => begin b
  | .within more low high value, b =>
    if low ≤ b ∧ b ≤ high then
      let grown := value * 64 + (b.toNat - 0x80)
      match more with
      | 0 => ([Char.ofNat grown], .between)
      | more + 1 => ([], .within more 0x80 0xbf grown)
    else
      let (chars, state) := begin b
      (replacement :: chars, state)

def readFrom : Utf8State → List UInt8 → List Char
  | .between, [] => []
  | .within .., [] => [replacement]
  | state, b :: rest =>
    let (chars, next) := state.step b
    chars ++ readFrom next rest

end Utf8State

def decode (bytes : List UInt8) : String := String.ofList (Utf8State.between.readFrom bytes)

end BehaviorRegistrar.Text
