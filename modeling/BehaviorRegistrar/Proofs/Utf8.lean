import BehaviorRegistrar.Text.Utf8

/-!
# Reading what was written

The bytes of a character take the reader from between two characters to between two characters and
give that character. So a text that is written as bytes is read as it was.
-/

namespace BehaviorRegistrar.Text

namespace Utf8State

variable {a b low high : UInt8} {rest : List UInt8} {more value n : Nat}

theorem readFrom_single (h : b < 0x80) :
    between.readFrom (b :: rest) = Char.ofNat b.toNat :: between.readFrom rest := by
  rw [readFrom, step, begin, if_pos h]
  rfl

theorem readFrom_lead {state : Utf8State} (h : 0x80 ≤ b.toNat) (hlead : lead? b = some state) :
    between.readFrom (b :: rest) = state.readFrom rest := by
  have hnot : ¬ b < 0x80 := by
    rw [UInt8.lt_iff_toNat_lt]
    simpa using h
  rw [readFrom, step, begin, if_neg hnot, hlead]
  rfl

theorem readFrom_more (hlow : low ≤ b) (hhigh : b ≤ high) :
    (within (more + 1) low high value).readFrom (b :: rest) =
      (within more 0x80 0xbf (value * 64 + (b.toNat - 0x80))).readFrom rest := by
  rw [readFrom, step, if_pos ⟨hlow, hhigh⟩]
  rfl

theorem readFrom_last (hlow : low ≤ b) (hhigh : b ≤ high) :
    (within 0 low high value).readFrom (b :: rest) =
      Char.ofNat (value * 64 + (b.toNat - 0x80)) :: between.readFrom rest := by
  rw [readFrom, step, if_pos ⟨hlow, hhigh⟩]
  rfl

theorem eq_of_toNat (h : a.toNat = n) : a = UInt8.ofNat n := by
  rw [← h, UInt8.ofNat_toNat]

theorem ne_of_toNat (h : a.toNat ≠ b.toNat) : a ≠ b := by
  rintro rfl
  exact h rfl

theorem lead?_two (hlow : 0x80 ≤ n) (hhigh : n ≤ 0x7ff) (ha : a.toNat = n / 64 + 0xc0) :
    lead? a = some (.within 0 0x80 0xbf (n / 64)) := by
  have hrange : 0xc2 ≤ a ∧ a ≤ 0xdf := by
    simp only [UInt8.le_iff_toNat_le, UInt8.reduceToNat]
    omega
  rw [lead?, if_pos hrange, ha, Nat.add_sub_cancel]

/-- The first byte of three bounds the second, which lies above the shorter forms and outside the
surrogates. -/
theorem lead?_three (hlow : 0x800 ≤ n) (hhigh : n ≤ 0xffff) (hvalid : n < 0xd800 ∨ 0xdfff < n)
    (ha : a.toNat = n / 4096 + 0xe0) (hb : b.toNat = n / 64 % 64 + 0x80) :
    ∃ low high, lead? a = some (.within 1 low high (n / 4096)) ∧ low ≤ b ∧ b ≤ high := by
  simp only [UInt8.le_iff_toNat_le, hb]
  by_cases hleast : n / 4096 = 0
  · rw [hleast] at ha ⊢
    rw [eq_of_toNat ha]
    exact ⟨0xa0, 0xbf, rfl, by simp only [UInt8.reduceToNat]; omega⟩
  by_cases hsurrogate : n / 4096 = 13
  · rw [hsurrogate] at ha ⊢
    rw [eq_of_toNat ha]
    exact ⟨0x80, 0x9f, rfl, by simp only [UInt8.reduceToNat]; omega⟩
  · have hnot : ¬ (0xc2 ≤ a ∧ a ≤ 0xdf) ∧ a ≠ 0xe0 ∧ a ≠ 0xed := by
      refine ⟨?_, ne_of_toNat ?_, ne_of_toNat ?_⟩
      all_goals
        simp only [UInt8.le_iff_toNat_le, UInt8.reduceToNat, ha]
        omega
    have hrange : 0xe1 ≤ a ∧ a ≤ 0xef := by
      simp only [UInt8.le_iff_toNat_le, UInt8.reduceToNat]
      omega
    refine ⟨0x80, 0xbf, ?_, by simp only [UInt8.reduceToNat]; omega⟩
    rw [lead?, if_neg hnot.1, if_neg hnot.2.1, if_neg hnot.2.2, if_pos hrange, ha,
      Nat.add_sub_cancel]

theorem lead?_four (hlow : 0x10000 ≤ n) (hhigh : n < 0x110000) (ha : a.toNat = n / 262144 + 0xf0)
    (hb : b.toNat = n / 4096 % 64 + 0x80) :
    ∃ low high, lead? a = some (.within 2 low high (n / 262144)) ∧ low ≤ b ∧ b ≤ high := by
  simp only [UInt8.le_iff_toNat_le, hb]
  by_cases hleast : n / 262144 = 0
  · rw [hleast] at ha ⊢
    rw [eq_of_toNat ha]
    exact ⟨0x90, 0xbf, rfl, by simp only [UInt8.reduceToNat]; omega⟩
  by_cases hlast : n / 262144 = 4
  · rw [hlast] at ha ⊢
    rw [eq_of_toNat ha]
    exact ⟨0x80, 0x8f, rfl, by simp only [UInt8.reduceToNat]; omega⟩
  · have hnot : ¬ (0xc2 ≤ a ∧ a ≤ 0xdf) ∧ a ≠ 0xe0 ∧ a ≠ 0xed ∧ ¬ (0xe1 ≤ a ∧ a ≤ 0xef) ∧
        a ≠ 0xf0 := by
      refine ⟨?_, ne_of_toNat ?_, ne_of_toNat ?_, ?_, ne_of_toNat ?_⟩
      all_goals
        simp only [UInt8.le_iff_toNat_le, UInt8.reduceToNat, ha]
        omega
    have hrange : 0xf1 ≤ a ∧ a ≤ 0xf3 := by
      simp only [UInt8.le_iff_toNat_le, UInt8.reduceToNat]
      omega
    refine ⟨0x80, 0xbf, ?_, by simp only [UInt8.reduceToNat]; omega⟩
    rw [lead?, if_neg hnot.1, if_neg hnot.2.1, if_neg hnot.2.2.1, if_neg hnot.2.2.2.1,
      if_neg hnot.2.2.2.2, if_pos hrange, ha, Nat.add_sub_cancel]

theorem tail_bounds (h : b.toNat = n % 64 + 0x80) : 0x80 ≤ b ∧ b ≤ 0xbf := by
  simp only [UInt8.le_iff_toNat_le, UInt8.reduceToNat]
  omega

/-- The bytes of a character are read as that character. -/
theorem readFrom_utf8EncodeChar (c : Char) (rest : List UInt8) :
    between.readFrom (String.utf8EncodeChar c ++ rest) = c :: between.readFrom rest := by
  obtain ⟨n, hn⟩ : ∃ n, c.val.toNat = n := ⟨_, rfl⟩
  have hself : Char.ofNat n = c := hn ▸ Char.ofNat_toNat c
  have hvalid : n < 0xd800 ∨ 0xdfff < n ∧ n < 0x110000 := hn ▸ c.valid
  have hbyte : ∀ {k}, k < 256 → (UInt8.ofNat k).toNat = k := UInt8.toNat_ofNat_of_lt'
  have htail : ∀ k, (UInt8.ofNat (k % 64 + 0x80)).toNat = k % 64 + 0x80 := fun k => hbyte (by omega)
  simp only [String.utf8EncodeChar, hn]
  split
  · have hsmall : UInt8.ofNat n < 0x80 := by
      rw [UInt8.lt_iff_toNat_lt, hbyte (by omega)]
      simp only [UInt8.reduceToNat]
      omega
    rw [List.singleton_append, readFrom_single hsmall, hbyte (by omega), hself]
  split
  · have ha : (UInt8.ofNat (n / 64 % 32 + 0xc0)).toNat = n / 64 + 0xc0 := by
      rw [hbyte] <;> omega
    rw [List.cons_append, readFrom_lead (by omega) (lead?_two (by omega) (by omega) ha)]
    obtain ⟨hlow, hhigh⟩ := tail_bounds (htail n)
    have hvalue : n / 64 * 64 + (n % 64 + 0x80 - 0x80) = n := by omega
    rw [List.singleton_append, readFrom_last hlow hhigh, htail, hvalue, hself]
  split
  · have ha : (UInt8.ofNat (n / 4096 % 16 + 0xe0)).toNat = n / 4096 + 0xe0 := by
      rw [hbyte] <;> omega
    obtain ⟨low, high, hlead, hlow, hhigh⟩ :=
      lead?_three (by omega) (by omega) (by omega) ha (htail (n / 64))
    rw [List.cons_append, readFrom_lead (by omega) hlead, List.cons_append, readFrom_more hlow hhigh]
    obtain ⟨hlow, hhigh⟩ := tail_bounds (htail n)
    have hvalue : (n / 4096 * 64 + (n / 64 % 64 + 0x80 - 0x80)) * 64 + (n % 64 + 0x80 - 0x80) = n := by
      omega
    rw [List.singleton_append, readFrom_last hlow hhigh, htail, htail, hvalue, hself]
  · have ha : (UInt8.ofNat (n / 262144 % 8 + 0xf0)).toNat = n / 262144 + 0xf0 := by
      rw [hbyte] <;> omega
    obtain ⟨low, high, hlead, hlow, hhigh⟩ :=
      lead?_four (by omega) (by omega) ha (htail (n / 4096))
    rw [List.cons_append, readFrom_lead (by omega) hlead, List.cons_append, readFrom_more hlow hhigh]
    obtain ⟨hlow, hhigh⟩ := tail_bounds (htail (n / 64))
    rw [List.cons_append, readFrom_more hlow hhigh]
    obtain ⟨hlow, hhigh⟩ := tail_bounds (htail n)
    have hvalue : ((n / 262144 * 64 + (n / 4096 % 64 + 0x80 - 0x80)) * 64 +
        (n / 64 % 64 + 0x80 - 0x80)) * 64 + (n % 64 + 0x80 - 0x80) = n := by omega
    rw [List.singleton_append, readFrom_last hlow hhigh, htail, htail, htail, hvalue, hself]

end Utf8State

theorem encode_ofList (s : List Char) :
    encode (String.ofList s) = s.flatMap String.utf8EncodeChar := by
  rw [encode, String.toUTF8_eq_toByteArray, String.toByteArray_ofList, List.utf8Encode,
    List.toList_data_toByteArray]

/-- A text is read as it was written. -/
theorem decode_encode (s : String) : decode (encode s) = s := by
  have hread : ∀ s : List Char,
      Utf8State.between.readFrom (s.flatMap String.utf8EncodeChar) = s := by
    intro s
    induction s with
    | nil => rfl
    | cons c s ih => rw [List.flatMap_cons, Utf8State.readFrom_utf8EncodeChar, ih]
  rw [← String.ofList_toList (s := s), encode_ofList, decode, hread]

end BehaviorRegistrar.Text
