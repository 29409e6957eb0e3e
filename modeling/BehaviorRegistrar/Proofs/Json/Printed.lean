import BehaviorRegistrar.Json.Printer
import Mathlib.Data.Char

/-!
# Printed JSON

What is printed stands on one line: no character in it is below the space.
-/

namespace BehaviorRegistrar

/-- Whether a text has no controls and no line feeds. -/
def IsVisible (s : List Char) : Prop := ∀ c ∈ s, ' ' ≤ c

section

variable {c : Char} {s t : List Char}

@[simp] theorem isVisible_nil : IsVisible [] := by simp [IsVisible]

@[simp] theorem isVisible_cons : IsVisible (c :: s) ↔ ' ' ≤ c ∧ IsVisible s := by simp [IsVisible]

@[simp] theorem isVisible_append : IsVisible (s ++ t) ↔ IsVisible s ∧ IsVisible t := by
  simp [IsVisible, or_imp, forall_and]

theorem IsVisible.sublist (h : IsVisible t) (hsub : s.Sublist t) : IsVisible s :=
  fun c hc => h c (hsub.subset hc)

theorem isVisible_replicate (h : ' ' ≤ c) (n : Nat) : IsVisible (List.replicate n c) := by
  intro d hd
  rw [List.eq_of_mem_replicate hd]
  exact h

theorem isVisible_toDigits (n : Nat) : IsVisible (Nat.toDigits 10 n) := by
  intro c hc
  have hdigit := Nat.isDigit_of_mem_toDigits (by decide) (by decide) hc
  rw [Char.isDigit, Bool.and_eq_true, decide_eq_true_eq] at hdigit
  have hzero : '0' ≤ c := hdigit.1
  exact le_trans (by decide) hzero

end

namespace Decimal

theorem isVisible_layout (x : Decimal) : IsVisible x.layout := by
  have hdigits : IsVisible (dropZeros (Nat.toDigits 10 x.digits)).1 := by
    have hsub : ((Nat.toDigits 10 x.digits).reverse.dropWhile (· == '0')).reverse.Sublist
        (Nat.toDigits 10 x.digits) := by
      rw [List.reverse_sublist.symm, List.reverse_reverse]
      exact List.dropWhile_sublist _
    exact (isVisible_toDigits x.digits).sublist hsub
  have hzeros := isVisible_replicate (c := '0') (by decide)
  rw [layout]
  generalize dropZeros (Nat.toDigits 10 x.digits) = dropped at hdigits ⊢
  obtain ⟨digits, zeros⟩ := dropped
  dsimp only at hdigits ⊢
  split
  · split
    · simp [hdigits, hzeros]
    · have htake : ∀ k, IsVisible (digits.take k) :=
        fun k => hdigits.sublist (List.take_sublist k digits)
      have hdrop : ∀ k, IsVisible (digits.drop k) :=
        fun k => hdigits.sublist (List.drop_sublist k digits)
      simp only [isVisible_append, htake, hzeros, true_and]
      split <;> simp [hdrop]
  · generalize x.exponent + zeros + digits.length - 1 = leading
    have hexponent := isVisible_toDigits leading.natAbs
    have hsign : ' ' ≤ if leading < 0 then '-' else '+' := by
      split <;> decide
    simp only [isVisible_append, isVisible_cons, hsign, hexponent]
    rcases digits with _ | ⟨d, _ | ⟨e, more⟩⟩
    · simp
    · simpa using hdigits
    · simpa using hdigits

theorem isVisible_textOf (x : Float) : IsVisible (textOf x) := by
  rw [textOf]
  have hlayout := isVisible_layout (Decimal.shortest (Binary.ofBits x.toBits))
  simp only [isVisible_append]
  constructor
  · split <;> simp
  · split
    · simp
    · exact hlayout

end Decimal

namespace Json

theorem Number.text_ofNat (n : Nat) : (Number.integer (.ofNat n)).text = Nat.toDigits 10 n := by
  rw [← Nat.toList_repr]
  rfl

theorem Number.text_negSucc (n : Nat) :
    (Number.integer (.negSucc n)).text = '-' :: Nat.toDigits 10 (n + 1) := by
  simp [Number.text, toString, Int.repr]

theorem Number.isVisible_text (n : Number) : IsVisible n.text := by
  cases n with
  | integer value =>
    cases value with
    | ofNat n =>
      rw [Number.text_ofNat]
      exact isVisible_toDigits n
    | negSucc n =>
      rw [Number.text_negSucc]
      exact isVisible_cons.mpr ⟨by decide, isVisible_toDigits (n + 1)⟩
  | double value => exact Decimal.isVisible_textOf value

theorem isVisible_writtenChar (c : Char) : IsVisible (writtenChar c) := by
  have hhex : ∀ n < 16, ' ' ≤ hexDigit n := by decide
  fun_cases writtenChar c
  case case8 hcontrol =>
    have hlow : c.toNat < 32 := hcontrol
    simp [hhex (c.toNat / 16) (by omega), hhex (c.toNat % 16) (by omega)]
  case case9 hplain => simpa using hplain
  all_goals simp

theorem isVisible_written (s : List Char) : IsVisible (written s) := by
  have hbody : IsVisible (s.flatMap writtenChar) := by
    intro c hc
    obtain ⟨d, -, hd⟩ := List.mem_flatMap.mp hc
    exact isVisible_writtenChar d c hd
  simp [written, hbody]

mutual

theorem isVisible_print (value : Json) : IsVisible (print value) := by
  cases value with
  | null => simp [print]
  | bool b => cases b <;> simp [print]
  | number n => exact n.isVisible_text
  | string s => exact isVisible_written s.toList
  | array items => simp [print, isVisible_printItems items]
  | object members => simp [print, isVisible_printMembers members]

theorem isVisible_printItems (items : List Json) : IsVisible (printItems items) := by
  match items with
  | [] => exact isVisible_nil
  | [item] => exact isVisible_print item
  | item :: next :: rest =>
    simp [printItems, isVisible_print item, isVisible_printItems (next :: rest)]

theorem isVisible_printMembers (members : List (String × Json)) :
    IsVisible (printMembers members) := by
  match members with
  | [] => exact isVisible_nil
  | [(key, value)] =>
    simp [printMembers, isVisible_written key.toList, isVisible_print value]
  | (key, value) :: next :: rest =>
    simp [printMembers, isVisible_written key.toList, isVisible_print value,
      isVisible_printMembers (next :: rest)]

end

theorem isVisible_compact (value : Json) : IsVisible value.compact.toList := by
  rw [compact, String.toList_ofList]
  exact isVisible_print value

end Json

end BehaviorRegistrar
