import BehaviorRegistrar.Json.Fault

/-!
# JSON strings

Writing escapes the quote, the backslash and the controls, and nothing else. Reading starts behind
the opening quote; characters beyond the basic plane may be written as a pair of surrogates, and a
surrogate without its partner is refused.
-/

namespace BehaviorRegistrar.Json

open Text

def hexDigit (n : Nat) : Char :=
  if n < 10 then Char.ofNat ('0'.toNat + n) else Char.ofNat ('a'.toNat + n - 10)

def writtenChar (c : Char) : List Char :=
  if c = '"' then ['\\', '"']
  else if c = '\\' then ['\\', '\\']
  else if c = '\x08' then ['\\', 'b']
  else if c = '\t' then ['\\', 't']
  else if c = '\n' then ['\\', 'n']
  else if c = '\x0c' then ['\\', 'f']
  else if c = '\r' then ['\\', 'r']
  else if c < ' ' then ['\\', 'u', '0', '0', hexDigit (c.toNat / 16), hexDigit (c.toNat % 16)]
  else [c]

def written (s : List Char) : List Char := '"' :: s.flatMap writtenChar ++ ['"']

def hexValue? (c : Char) : Option Nat :=
  if '0' ≤ c ∧ c ≤ '9' then some (c.toNat - '0'.toNat)
  else if 'a' ≤ c ∧ c ≤ 'f' then some (c.toNat - 'a'.toNat + 10)
  else if 'A' ≤ c ∧ c ≤ 'F' then some (c.toNat - 'A'.toNat + 10)
  else none

def fourHex? : List Char → Option (Nat × List Char)
  | a :: b :: c :: d :: r => do
    let a ← hexValue? a
    let b ← hexValue? b
    let c ← hexValue? c
    let d ← hexValue? d
    return (((a * 16 + b) * 16 + c) * 16 + d, r)
  | _ => none

/-- Reads a code unit of four hexadecimal digits. Four bytes are taken before they are looked at. -/
def readUnit (s : List Char) : Except (Fault Cause) (Nat × List Char) :=
  match fourHex? s with
  | some unit => .ok unit
  | none =>
    if byteLength s < 4 then .error ⟨.endInString, 0⟩ else .error ⟨.badEscape, byteLength s - 4⟩

def readPartner (high : Nat) (s : List Char) : Except (Fault Cause) (Char × List Char) :=
  match s with
  | [] => .error (.here .endInString [])
  | '\\' :: [] => .error (.here .endInString [])
  | '\\' :: 'u' :: r => do
    let (low, rest) ← readUnit r
    if 0xdc00 ≤ low ∧ low ≤ 0xdfff then
      return (Char.ofNat ((high - 0xd800) * 0x400 + (low - 0xdc00) + 0x10000), rest)
    else .error (.here .loneSurrogate rest)
  | '\\' :: r => .error (.next .brokenSurrogatePair r)
  | _ => .error (.next .brokenSurrogatePair s)

def readEscape (s : List Char) : Except (Fault Cause) (Char × List Char) :=
  match s with
  | [] => .error (.here .endInString [])
  | '"' :: r => .ok ('"', r)
  | '\\' :: r => .ok ('\\', r)
  | '/' :: r => .ok ('/', r)
  | 'b' :: r => .ok ('\x08', r)
  | 'f' :: r => .ok ('\x0c', r)
  | 'n' :: r => .ok ('\n', r)
  | 'r' :: r => .ok ('\r', r)
  | 't' :: r => .ok ('\t', r)
  | 'u' :: r => do
    let (unit, rest) ← readUnit r
    if 0xdc00 ≤ unit ∧ unit ≤ 0xdfff then .error (.here .loneSurrogate rest)
    else if 0xd800 ≤ unit ∧ unit ≤ 0xdbff then readPartner unit rest
    else return (Char.ofNat unit, rest)
  | _ => .error (.next .badEscape s)

theorem length_of_readUnit {s r : List Char} {unit : Nat} (h : readUnit s = .ok (unit, r)) :
    r.length < s.length := by
  rw [readUnit] at h
  split at h
  · rename_i found hfound
    obtain rfl : found = (unit, r) := by simpa using h
    match s, hfound with
    | a :: b :: c :: d :: t, hfound =>
      simp only [fourHex?, Option.bind_eq_bind, Option.bind_eq_some_iff, Option.pure_def,
        Option.some.injEq, Prod.mk.injEq] at hfound
      obtain ⟨_, -, _, -, _, -, _, -, -, rfl⟩ := hfound
      simp only [List.length_cons]
      omega
  · split at h <;> simp at h

theorem length_of_readPartner {high : Nat} {s r : List Char} {c : Char}
    (h : readPartner high s = .ok (c, r)) : r.length < s.length := by
  rw [readPartner.eq_def] at h
  split at h
  · simp at h
  · simp at h
  · rename_i t
    cases hunit : readUnit t with
    | error fault => simp [hunit, bind, Except.bind] at h
    | ok found =>
      obtain ⟨low, rest⟩ := found
      have hlen := length_of_readUnit hunit
      simp only [hunit, bind, Except.bind, pure, Except.pure] at h
      split at h
      · simp only [Except.ok.injEq, Prod.mk.injEq] at h
        simp only [← h.2, List.length_cons]
        omega
      · simp at h
  · simp at h
  · simp at h

theorem length_of_readEscape {s r : List Char} {c : Char} (h : readEscape s = .ok (c, r)) :
    r.length < s.length := by
  rw [readEscape.eq_def] at h
  split at h
  case h_10 t =>
    cases hunit : readUnit t with
    | error fault => simp [hunit, bind, Except.bind] at h
    | ok found =>
      obtain ⟨unit, rest⟩ := found
      have hlen := length_of_readUnit hunit
      simp only [hunit, bind, Except.bind, pure, Except.pure] at h
      split at h
      · simp at h
      · split at h
        · have hpartner := length_of_readPartner h
          simp only [List.length_cons]
          omega
        · simp only [Except.ok.injEq, Prod.mk.injEq] at h
          simp only [← h.2, List.length_cons]
          omega
  all_goals
    first
    | (simp only [Except.ok.injEq, Prod.mk.injEq] at h
       simp [← h.2])
    | simp at h

/-- Reads a string whose opening quote is already read. -/
def readString : List Char → Except (Fault Cause) (List Char × List Char)
  | [] => .error (.here .endInString [])
  | c :: r =>
    if c = '"' then .ok ([], r)
    else if c = '\\' then
      match _h : readEscape r with
      | .error fault => .error fault
      | .ok (x, rest) => (readString rest).map fun found => (x :: found.1, found.2)
    else if c < ' ' then .error (.here .controlCharacter r)
    else (readString r).map fun found => (c :: found.1, found.2)
termination_by s => s.length
decreasing_by
  · have hlen := length_of_readEscape _h
    simp only [List.length_cons]
    omega
  · simp

theorem length_of_readString {s r x : List Char} (h : readString s = .ok (x, r)) :
    r.length < s.length := by
  fun_induction readString s generalizing x r with
  | case1 => simp at h
  | case2 t => simp_all
  | case3 t fault hescape _ => simp at h
  | case4 t y rest hescape _ ih =>
    have hlen := length_of_readEscape hescape
    cases hrest : readString rest with
    | error fault => simp [hrest, Except.map] at h
    | ok found =>
      obtain ⟨z, q⟩ := found
      have hq := ih hrest
      simp only [hrest, Except.map, Except.ok.injEq, Prod.mk.injEq] at h
      simp only [← h.2, List.length_cons]
      omega
  | case5 c t _ _ _ => simp at h
  | case6 c t _ _ _ ih =>
    cases hrest : readString t with
    | error fault => simp [hrest, Except.map] at h
    | ok found =>
      obtain ⟨z, q⟩ := found
      have hq := ih hrest
      simp only [hrest, Except.map, Except.ok.injEq, Prod.mk.injEq] at h
      simp only [← h.2, List.length_cons]
      omega

end BehaviorRegistrar.Json
