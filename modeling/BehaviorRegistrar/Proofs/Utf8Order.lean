import BehaviorRegistrar.Proofs.Utf8
import Mathlib.Tactic.SplitIfs

/-!
# The order of texts

UTF-8 writes a character as a first byte that tells how many follow it and as groups of six bits,
the highest ones first. Later characters have later bytes, so texts have one order, that of their
characters and that of their bytes.
-/

namespace BehaviorRegistrar.Text

/-- Numbers below a bound are written as bytes that are in the order of the numbers, whatever
follows them. -/
def IsOrderedCode (bound : Nat) (code : Nat → List UInt8) : Prop :=
  ∀ a b, a < b → b < bound → ∀ v w, code a ++ v < code b ++ w

theorem ofNat_cons_lt {a b : Nat} (h : a < b) (hb : b < 256) (v w : List UInt8) :
    UInt8.ofNat a :: v < UInt8.ofNat b :: w := by
  rw [List.cons_lt_cons_iff, UInt8.lt_iff_toNat_lt, UInt8.toNat_ofNat_of_lt' hb,
    UInt8.toNat_ofNat_of_lt' (Nat.lt_trans h hb)]
  exact .inl h

theorem isOrderedCode_lead (base size : Nat) (h : base + size ≤ 256) :
    IsOrderedCode size fun n => [UInt8.ofNat (n % size + base)] := by
  intro a b hab hb v w
  dsimp only
  rw [Nat.mod_eq_of_lt (Nat.lt_trans hab hb), Nat.mod_eq_of_lt hb]
  exact ofNat_cons_lt (by omega) (by omega) v w

theorem IsOrderedCode.append_tail {bound : Nat} {code : Nat → List UInt8}
    (h : IsOrderedCode bound code) :
    IsOrderedCode (bound * 64) fun n => code (n / 64) ++ [UInt8.ofNat (n % 64 + 0x80)] := by
  intro a b hab hb v w
  simp only [List.append_assoc, List.singleton_append]
  rcases Nat.lt_or_ge (a / 64) (b / 64) with hlt | hge
  · exact h _ _ hlt (by omega) _ _
  · have heq : a / 64 = b / 64 := by omega
    rw [heq]
    exact List.append_left_lt (ofNat_cons_lt (by omega) (by omega) v w)

/-- The bytes of a character come before those of a later one, whatever follows them. -/
theorem utf8EncodeChar_append_lt {c d : Char} (h : c < d) (v w : List UInt8) :
    String.utf8EncodeChar c ++ v < String.utf8EncodeChar d ++ w := by
  have hlt : c.val.toNat < d.val.toNat := h
  have hbound : d.val.toNat < 0x110000 := by
    have hvalid := d.valid
    simp only [UInt32.isValidChar, Nat.isValidChar] at hvalid
    omega
  have htwo := (isOrderedCode_lead 0xc0 32 (by omega)).append_tail
  have hthree := (isOrderedCode_lead 0xe0 16 (by omega)).append_tail.append_tail
  have hfour :=
    (isOrderedCode_lead 0xf0 8 (by omega)).append_tail.append_tail.append_tail
  simp only [Nat.div_div_eq_div_mul] at hthree hfour
  simp only [String.utf8EncodeChar]
  generalize c.val.toNat = n at hlt ⊢
  generalize d.val.toNat = m at hlt hbound ⊢
  -- characters of one length are compared as numbers, others by their first byte
  split
  · split_ifs
    all_goals exact ofNat_cons_lt (by omega) (by omega) _ _
  split
  · rw [if_neg (by omega)]
    split_ifs
    · exact htwo n m hlt (by omega) v w
    all_goals exact ofNat_cons_lt (by omega) (by omega) _ _
  split
  · rw [if_neg (by omega), if_neg (by omega)]
    split_ifs
    · exact hthree n m hlt (by omega) v w
    · exact ofNat_cons_lt (by omega) (by omega) _ _
  · rw [if_neg (by omega), if_neg (by omega), if_neg (by omega)]
    exact hfour n m hlt (by omega) v w

/-- The order of texts is that of their bytes. -/
theorem encode_lt_encode_iff {s t : String} : encode s < encode t ↔ s < t := by
  have hlt : ∀ {s t : List Char}, s < t →
      s.flatMap String.utf8EncodeChar < t.flatMap String.utf8EncodeChar := by
    intro s t h
    induction h with
    | @nil d t =>
      rw [List.flatMap_cons]
      obtain ⟨b, bs, hb⟩ := List.exists_cons_of_ne_nil (String.utf8EncodeChar_ne_nil (c := d))
      rw [hb]
      exact List.nil_lt_cons _ _
    | @rel c s d t h =>
      rw [List.flatMap_cons, List.flatMap_cons]
      exact utf8EncodeChar_append_lt h _ _
    | @cons c s t h ih =>
      rw [List.flatMap_cons, List.flatMap_cons]
      exact List.append_left_lt ih
  have hencode : ∀ {s t : String}, s < t → encode s < encode t := by
    intro s t h
    rw [← String.ofList_toList (s := s), ← String.ofList_toList (s := t), encode_ofList, encode_ofList]
    exact hlt h
  refine ⟨fun h => ?_, hencode⟩
  rcases Std.lt_trichotomy s t with hst | rfl | hts
  · exact hst
  · exact absurd h (List.lt_irrefl _)
  · exact absurd h (List.lt_asymm (hencode hts))

end BehaviorRegistrar.Text
