import BehaviorRegistrar.Text.Unprinted

/-!
# Text in quotes

A text is shown between double quotes on one line: quote, backslash and the common controls have
escapes of their own, and every other character without a printed form is shown by its number.
-/

namespace BehaviorRegistrar.Text

def hexDigits (n : Nat) : List Char := Nat.toDigits 16 n

def quotedChar (c : Char) : List Char :=
  if c = '\x00' then ['\\', '0']
  else if c = '\t' then ['\\', 't']
  else if c = '\r' then ['\\', 'r']
  else if c = '\n' then ['\\', 'n']
  else if c = '\\' then ['\\', '\\']
  else if c = '"' then ['\\', '"']
  else if isUnprinted c then ['\\', 'u', '{'] ++ hexDigits c.toNat ++ ['}']
  else [c]

def quoted (s : List Char) : List Char := '"' :: s.flatMap quotedChar ++ ['"']

end BehaviorRegistrar.Text
