import BehaviorRegistrar.Decimal.Shortest
import BehaviorRegistrar.Json.Fault

/-!
# JSON numbers

A number without fraction and exponent is an integer while it fits 64 bits, signed or not; any other
number is a double. The digits are taken into a significand of 64 bits while they fit. Of those that
do not fit, the ones before the point raise the exponent and the ones behind it are dropped. The
double is the rounded significand times, or over, a power of ten. Minus zero is a double.
-/

namespace BehaviorRegistrar.Json

/-- A number as read. -/
inductive Number where
  | integer (value : Int)
  | double (value : Float)

namespace Number

def text : Number → List Char
  | .integer value => (toString value).toList
  | .double value => Decimal.textOf value

def significandLimit : Nat := 18446744073709551616

/-- Takes digits into a significand while it stays below `2 ^ 64`. Gives the significand and how
many digits were left out; after the first one that does not fit, none is taken. -/
def absorb (significand : Nat) : List Char → Nat × Nat
  | [] => (significand, 0)
  | c :: r =>
    let grown := significand * 10 + (c.toNat - '0'.toNat)
    if grown < significandLimit then absorb grown r else (significand, r.length + 1)

def tenTo (exponent : Nat) : Float := OfScientific.ofScientific 1 false exponent

def scaleDown (value : Float) (exponent : Nat) : Float :=
  if _h : exponent ≤ 308 then value / tenTo exponent
  else if value == 0 then value
  else scaleDown (value / tenTo 308) (exponent - 308)
termination_by exponent

def double? (significand : Nat) (exponent : Int) : Option Float :=
  let value := significand.toUInt64.toFloat
  match exponent with
  | .ofNat up =>
    if up ≤ 308 then
      let scaled := value * tenTo up
      if scaled.isInf then none else some scaled
    else if value == 0 then some value else none
  | .negSucc down => some (scaleDown value (down + 1))

def exponentLimit : Nat := 2147483647

def exponentOf (value : Nat) : List Char → Except (List Char) Nat
  | [] => .ok value
  | c :: r =>
    if c.isDigit then
      let grown := value * 10 + (c.toNat - '0'.toNat)
      if exponentLimit < grown then .error r else exponentOf grown r
    else .ok value

def signed (negative : Bool) (value : Float) : Number :=
  .double (if negative then -value else value)

def finish (negative : Bool) (significand : Nat) (exponent : Int) (rest : List Char) :
    Except (Fault Cause) (Number × List Char) :=
  match double? significand exponent with
  | some value => .ok (signed negative value, rest)
  | none => .error (.here .numberOutOfRange rest)

/-- Reads the digits of an exponent that counts up or down. An exponent beyond the limit leaves
zero, unless it counts up on a significand that is not zero. -/
def readExponentDigits (negative : Bool) (significand : Nat) (exponent : Int) (down : Bool)
    (s : List Char) : Except (Fault Cause) (Number × List Char) :=
  match s with
  | [] => .error (.here .endInValue [])
  | c :: _ =>
    if c.isDigit then
      match exponentOf 0 s with
      | .ok value =>
        finish negative significand (if down then exponent - value else exponent + value)
          (s.dropWhile Char.isDigit)
      | .error behind =>
        if significand ≠ 0 ∧ down = false then .error (.here .numberOutOfRange behind)
        else .ok (signed negative 0, s.dropWhile Char.isDigit)
    else .error (.next .badNumber s)

def readExponent (negative : Bool) (significand : Nat) (exponent : Int) (s : List Char) :
    Except (Fault Cause) (Number × List Char) :=
  match s with
  | '+' :: r => readExponentDigits negative significand exponent false r
  | '-' :: r => readExponentDigits negative significand exponent true r
  | _ => readExponentDigits negative significand exponent false s

def readScale (negative : Bool) (significand : Nat) (exponent : Int) (s : List Char) :
    Except (Fault Cause) (Number × List Char) :=
  match s with
  | 'e' :: r => readExponent negative significand exponent r
  | 'E' :: r => readExponent negative significand exponent r
  | _ => finish negative significand exponent s

def readFraction (negative : Bool) (significand : Nat) (exponent : Int) (s : List Char) :
    Except (Fault Cause) (Number × List Char) :=
  match s with
  | [] => .error (.here .endInValue [])
  | c :: _ =>
    if c.isDigit then
      let digits := s.takeWhile Char.isDigit
      let (grown, left) := absorb significand digits
      readScale negative grown (exponent - (digits.length - left : Nat)) (s.dropWhile Char.isDigit)
    else .error (.next .badNumber s)

def negativeLimit : Nat := 9223372036854775808

def whole (negative : Bool) (significand : Nat) : Number :=
  if negative then
    if significand = 0 ∨ negativeLimit < significand then signed true significand.toUInt64.toFloat
    else .integer (-significand)
  else .integer significand

def readTail (negative : Bool) (significand left : Nat) (s : List Char) :
    Except (Fault Cause) (Number × List Char) :=
  match s with
  | '.' :: r => readFraction negative significand left r
  | 'e' :: r => readExponent negative significand left r
  | 'E' :: r => readExponent negative significand left r
  | _ =>
    if left = 0 then .ok (whole negative significand, s) else finish negative significand left s

/-- Reads a number without its sign. A zero in front is the only digit before the point. -/
def readUnsigned (negative : Bool) (s : List Char) : Except (Fault Cause) (Number × List Char) :=
  match s with
  | [] => .error (.here .endInValue [])
  | '0' :: r =>
    match r with
    | [] => readTail negative 0 0 []
    | c :: _ => if c.isDigit then .error (.next .badNumber r) else readTail negative 0 0 r
  | c :: _ =>
    if c.isDigit then
      let (significand, left) := absorb 0 (s.takeWhile Char.isDigit)
      readTail negative significand left (s.dropWhile Char.isDigit)
    else .error (.next .badNumber s)

theorem eq_of_finish {negative : Bool} {significand : Nat} {exponent : Int} {s r : List Char}
    {n : Number} (h : finish negative significand exponent s = .ok (n, r)) : r = s := by
  rw [finish] at h
  split at h
  · simp only [Except.ok.injEq, Prod.mk.injEq] at h
    exact h.2.symm
  · simp at h

private theorem length_dropWhile_le (p : Char → Bool) (s : List Char) :
    (s.dropWhile p).length ≤ s.length := (List.dropWhile_sublist p).length_le

theorem length_of_readExponentDigits {negative down : Bool} {significand : Nat} {exponent : Int}
    {s r : List Char} {n : Number}
    (h : readExponentDigits negative significand exponent down s = .ok (n, r)) :
    r.length ≤ s.length := by
  have hdrop := length_dropWhile_le Char.isDigit s
  rw [readExponentDigits.eq_def] at h
  split at h
  · simp at h
  · split at h
    · split at h
      · rw [eq_of_finish h]
        exact hdrop
      · split at h
        · simp at h
        · simp only [Except.ok.injEq, Prod.mk.injEq] at h
          rw [← h.2]
          exact hdrop
    · simp at h

theorem length_of_readExponent {negative : Bool} {significand : Nat} {exponent : Int}
    {s r : List Char} {n : Number} (h : readExponent negative significand exponent s = .ok (n, r)) :
    r.length ≤ s.length := by
  rw [readExponent.eq_def] at h
  split at h
  · have := length_of_readExponentDigits h
    simp only [List.length_cons]
    omega
  · have := length_of_readExponentDigits h
    simp only [List.length_cons]
    omega
  · exact length_of_readExponentDigits h

theorem length_of_readScale {negative : Bool} {significand : Nat} {exponent : Int}
    {s r : List Char} {n : Number} (h : readScale negative significand exponent s = .ok (n, r)) :
    r.length ≤ s.length := by
  rw [readScale.eq_def] at h
  split at h
  · have := length_of_readExponent h
    simp only [List.length_cons]
    omega
  · have := length_of_readExponent h
    simp only [List.length_cons]
    omega
  · exact Nat.le_of_eq (congrArg List.length (eq_of_finish h))

theorem length_of_readTail {negative : Bool} {significand left : Nat} {s r : List Char}
    {n : Number} (h : readTail negative significand left s = .ok (n, r)) :
    r.length ≤ s.length := by
  rw [readTail.eq_def] at h
  split at h
  · rename_i t
    rw [readFraction.eq_def] at h
    split at h
    · simp at h
    · split at h
      · have hscale := length_of_readScale h
        rename_i c u _
        have hdrop := length_dropWhile_le Char.isDigit (c :: u)
        simp only [List.length_cons] at hdrop hscale ⊢
        omega
      · simp at h
  · have := length_of_readExponent h
    simp only [List.length_cons]
    omega
  · have := length_of_readExponent h
    simp only [List.length_cons]
    omega
  · split at h
    · simp only [Except.ok.injEq, Prod.mk.injEq] at h
      exact Nat.le_of_eq (congrArg List.length h.2.symm)
    · exact Nat.le_of_eq (congrArg List.length (eq_of_finish h))

theorem length_of_readUnsigned {negative : Bool} {s r : List Char} {n : Number}
    (h : readUnsigned negative s = .ok (n, r)) : r.length < s.length := by
  rw [readUnsigned.eq_def] at h
  split at h
  · simp at h
  · split at h
    · have := length_of_readTail h
      simp only [List.length_cons]
      omega
    · split at h
      · simp at h
      · have := length_of_readTail h
        simp only [List.length_cons] at this ⊢
        omega
  · rename_i c t _
    split at h
    · rename_i hdigit
      have htail := length_of_readTail h
      have hdrop := length_dropWhile_le Char.isDigit t
      rw [List.dropWhile_cons_of_pos hdigit] at htail
      simp only [List.length_cons]
      omega
    · simp at h

end Number

end BehaviorRegistrar.Json
