import Aloof.Framework.Varint
import Aloof.Ruby.Codec

namespace Aloof.Ruby

open Framework

namespace OutputCodec

/-- The four bytes of the number. -/
theorem pack_four (v : Int) : pack 4 v =
    [UInt8.ofNat ((v % 2^32).toNat / 16777216), UInt8.ofNat ((v % 2^32).toNat / 65536),
      UInt8.ofNat ((v % 2^32).toNat / 256), UInt8.ofNat (v % 2^32).toNat] := by
  simp [pack, octets]

/-- The encoder turns round the wrong end of the word. -/
def Mirrored (v : Int) : Prop := (0 ≤ v ∧ v < 64) ∨ (v ≠ -1 ∧ (pack 4 v).reverse = pack 4 v)

theorem ofNat_eq_iff (m n : Nat) : UInt8.ofNat m = UInt8.ofNat n ↔ m % 256 = n % 256 := by
  rw [← UInt8.toNat_inj, UInt8.toNat_ofNat', UInt8.toNat_ofNat']

theorem reverse_pack_four (v : Int) : (pack 4 v).reverse = pack 4 v ↔
    (v % 2^32).toNat / 16777216 % 256 = (v % 2^32).toNat % 256 ∧
    (v % 2^32).toNat / 65536 % 256 = (v % 2^32).toNat / 256 % 256 := by
  rw [pack_four]
  simp only [List.reverse_cons, List.reverse_nil, List.nil_append, List.cons_append,
    List.cons.injEq, ofNat_eq_iff, and_true]
  omega

/-- The word of a number, above or below 0. -/
theorem word_cases {v : Int} (hlow : -2^31 ≤ v) (hhigh : v < 2^31) :
    (0 ≤ v ∧ ((v % 2^32).toNat : Int) = v) ∨ (v < 0 ∧ ((v % 2^32).toNat : Int) = v + 2^32) := by
  omega

/-- In a number of two bytes the upper half of the word is all sign. -/
theorem small_of_reverse {v : Int} (hlow : -32768 ≤ v) (hhigh : v < 32768)
    (h : (pack 4 v).reverse = pack 4 v) : v = 0 ∨ v = -1 := by
  have hword := word_cases (v := v) (by omega) (by omega)
  rw [reverse_pack_four] at h
  generalize (v % 2^32).toNat = m at hword h
  rcases hword with hpos | hneg
  · have htop : m / 16777216 = 0 := by omega
    have hnext : m / 65536 = 0 := by omega
    rw [htop, hnext] at h
    omega
  · have htop : m / 16777216 = 255 := by omega
    have hnext : m / 65536 = 65535 := by omega
    rw [htop, hnext] at h
    omega

theorem sizeofInt_eq (v : Int) : sizeofInt v =
    if -64 ≤ v ∧ v < 64 then 1
    else if -8192 ≤ v ∧ v < 8192 then 2
    else if -32768 ≤ v ∧ v < 32768 then 3
    else if -8388608 ≤ v ∧ v < 8388608 then 4
    else 5 := by
  unfold sizeofInt
  split_ifs <;> omega

theorem putInt_short {v : Int} (h : -64 ≤ v ∧ v < 64) : putInt v = pack 1 v := by
  rw [putInt, sizeofInt_eq, if_pos h]
  rfl

theorem putInt_long {v : Int} {k : Nat} (hsize : sizeofInt v = k + 1) (hk : 0 < k) (hk4 : k ≤ 4) :
    putInt v = UInt8.ofNat (128 + k) :: ((pack 4 v).take k).reverse := by
  rw [putInt, hsize]
  obtain rfl | rfl | rfl | rfl : k = 1 ∨ k = 2 ∨ k = 3 ∨ k = 4 := by omega
  all_goals rfl

theorem sizeofInt_le (v : Int) : sizeofInt v ≤ 5 := by
  rw [sizeofInt_eq]
  split_ifs <;> omega

theorem length_putInt (v : Int) : (putInt v).length = sizeofInt v := by
  have hsize := sizeofInt_eq v
  by_cases h : -64 ≤ v ∧ v < 64
  · rw [putInt_short h, hsize, if_pos h]
    exact length_octets 1 _
  · obtain ⟨k, hk, hpos, hle⟩ : ∃ k, sizeofInt v = k + 1 ∧ 0 < k ∧ k ≤ 4 := by
      rw [if_neg h] at hsize
      refine ⟨sizeofInt v - 1, ?_⟩
      split_ifs at hsize <;> omega
    have hfour : (pack 4 v).length = 4 := length_octets 4 _
    rw [putInt_long hk hpos hle, hk, List.length_cons, List.length_reverse,
      List.length_take_of_le (hfour ▸ hle)]

/-- From two bytes on, the wrong end turned round is the right end of the word turned round. -/
theorem take_reverse_eq_iff (v : Int) {k : Nat} (hk : 2 ≤ k) (hk4 : k ≤ 4) :
    ((pack 4 v).take k).reverse = octets k (v % 2^32).toNat ↔ (pack 4 v).reverse = pack 4 v := by
  rw [reverse_pack_four, pack_four]
  obtain rfl | rfl | rfl : k = 2 ∨ k = 3 ∨ k = 4 := by omega
  all_goals
    simp [octets, ofNat_eq_iff]
    omega

theorem putInt_eq_iff_of_width {v : Int} {k : Nat} (hsize : sizeofInt v = k + 1)
    (hwidth : Varint.widthSigned v = k) (hk : 2 ≤ k) (hk4 : k ≤ 4) :
    putInt v = Varint.encodeSigned v ↔ (pack 4 v).reverse = pack 4 v := by
  rw [putInt_long hsize (by omega) hk4, Varint.encodeSigned, hwidth, if_neg (by omega),
    Varint.long, List.cons_inj_right, take_reverse_eq_iff v hk hk4]

theorem putInt_short_eq_iff {v : Int} (h : -64 ≤ v ∧ v < 64) :
    putInt v = Varint.encodeSigned v ↔ 0 ≤ v := by
  rw [putInt_short h, Varint.encodeSigned, if_pos (Varint.widthSigned_eq_zero.mpr h)]
  simp only [pack, Varint.short_eq, octets, List.cons.injEq, and_true, ofNat_eq_iff]
  omega

/-- One byte of the wrong end is all sign, and a number with a byte of its own is more than that. -/
theorem putInt_ne_of_byte {v : Int} (hshort : ¬ (-64 ≤ v ∧ v < 64)) (h : -128 ≤ v ∧ v < 128) :
    putInt v ≠ Varint.encodeSigned v := by
  have hsize : sizeofInt v = 2 := by
    rw [sizeofInt_eq, if_neg hshort, if_pos (by omega)]
  have hwidth : Varint.widthSigned v = 1 := by
    rw [Varint.widthSigned, if_neg hshort, if_pos h]
  have hword := word_cases (v := v) (by omega) (by omega)
  rw [putInt_long hsize (by omega) (by omega), Varint.encodeSigned, hwidth,
    if_neg (by omega), Varint.long, Ne, List.cons_inj_right, pack_four]
  generalize (v % 2^32).toNat = m at hword
  have htop : m / 16777216 = 0 ∧ 0 ≤ v ∨ m / 16777216 = 255 ∧ v < 0 := by omega
  simp only [List.take_succ_cons, List.take_zero, List.reverse_singleton, octets, pow_zero,
    Nat.div_one, List.cons.injEq, ofNat_eq_iff, and_true]
  omega

/-- Two bytes are put for a number that needs three. -/
theorem putInt_ne_of_clipped {v : Int} (hbyte : ¬ (-128 ≤ v ∧ v < 128))
    (h : -8192 ≤ v ∧ v < 8192) : putInt v ≠ Varint.encodeSigned v := by
  intro heq
  have hlength := congrArg List.length heq
  have hwidth : Varint.widthSigned v = 2 := by
    rw [Varint.widthSigned, if_neg (by omega), if_neg hbyte, if_pos (by omega)]
  rw [length_putInt, sizeofInt_eq, if_neg (by omega), if_pos h, Varint.length_encodeSigned,
    hwidth] at hlength
  cases hlength

/-- From 8192 on the sizes agree, and it is the word alone that decides. -/
theorem putInt_long_eq_iff {v : Int} (hlow : -2^31 ≤ v) (hhigh : v < 2^31)
    (h : ¬ (-8192 ≤ v ∧ v < 8192)) :
    putInt v = Varint.encodeSigned v ↔ (pack 4 v).reverse = pack 4 v := by
  have hsize := sizeofInt_eq v
  have hwidth := Varint.widthSigned.eq_1 v
  rw [if_neg (by omega), if_neg h] at hsize
  rw [if_neg (by omega), if_neg (by omega)] at hwidth
  by_cases h2 : -32768 ≤ v ∧ v < 32768
  · rw [if_pos h2] at hsize hwidth
    exact putInt_eq_iff_of_width hsize hwidth (by omega) (by omega)
  rw [if_neg h2] at hsize hwidth
  by_cases h3 : -8388608 ≤ v ∧ v < 8388608
  · rw [if_pos h3] at hsize hwidth
    exact putInt_eq_iff_of_width hsize hwidth (by omega) (by omega)
  · rw [if_neg h3] at hsize hwidth
    exact putInt_eq_iff_of_width hsize hwidth (by omega) (by omega)

theorem putInt_eq_iff {v : Int} (hlow : -2^31 ≤ v) (hhigh : v < 2^31) :
    putInt v = Varint.encodeSigned v ↔ Mirrored v := by
  have hsmall := small_of_reverse (v := v)
  by_cases hshort : -64 ≤ v ∧ v < 64
  · rw [putInt_short_eq_iff hshort]
    constructor
    · intro h
      exact Or.inl ⟨h, hshort.2⟩
    · intro h
      rcases h with h | h
      · exact h.1
      · have := hsmall (by omega) (by omega) h.2
        omega
  have hword : Mirrored v ↔ (pack 4 v).reverse = pack 4 v := by
    rw [Mirrored, or_iff_right (by omega), and_iff_right (by omega)]
  rw [hword]
  by_cases hclipped : -8192 ≤ v ∧ v < 8192
  · apply iff_of_false
    · by_cases hbyte : -128 ≤ v ∧ v < 128
      · exact putInt_ne_of_byte hshort hbyte
      · exact putInt_ne_of_clipped hbyte hclipped
    · intro h
      have := hsmall (by omega) (by omega) h
      omega
  · exact putInt_long_eq_iff hlow hhigh hclipped

end OutputCodec

end Aloof.Ruby
