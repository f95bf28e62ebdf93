import Aloof.C.RoundTrip
import Aloof.C.SignedVarint

namespace Aloof.C

open Framework

/-- The short form of a signed number has its bit 6 for the sign. -/
theorem Grammar.int_decodes (scratch : UInt8) {n : Int} (hlow : -2^31 ≤ n) (hhigh : n < 2^31) :
    Decoder.Decodes (int scratch) (Varint.encodeSigned n) n := by
  intro rest
  unfold Varint.encodeSigned
  split_ifs with h
  · have hrange : -64 ≤ n ∧ n < 64 := Varint.widthSigned_eq_zero.mp h
    have hlt : (n % 128).toNat < 128 := by omega
    obtain ⟨hfirst, hshort⟩ := short_first hlt
    have hvalue : (((n % 128).toNat : Nat) : Int).bmod 128 = n := by
      rw [Int.toNat_of_nonneg (by omega), Int.bmod_def]
      omega
    rw [Varint.short_eq, int, List.singleton_append, Decoder.bind_ok (octet_cons _ rest),
      if_pos hshort, hfirst, hvalue]
    rfl
  · have hword := Varint.ofOctetsSigned_word hlow hhigh h
    have hfirst := long_first (Nat.pos_of_ne_zero h) (Varint.widthSigned_le n)
    have hne : octets (Varint.widthSigned n) (n % 2^32).toNat ≠ [] := by
      rw [← List.length_pos_iff, length_octets]
      exact Nat.pos_of_ne_zero h
    have hchunk := Decoder.Decodes.chunk () (octets (Varint.widthSigned n) (n % 2^32).toNat)
    rw [length_octets] at hchunk
    rw [Varint.long, int, List.cons_append, Decoder.bind_ok (octet_cons _ _), if_neg hfirst.1,
      if_pos hfirst.2.1, hfirst.2.2, Decoder.bind_ok (hchunk rest), if_neg hne, hword]
    rfl

/-- No form of a number has fewer octets. -/
theorem Grammar.int_takes {scratch : UInt8} {n : Int} {s r : List UInt8}
    (h : int scratch s = .ok (n, r)) : r.length + (Varint.encodeSigned n).length ≤ s.length := by
  obtain ⟨first, t, hfirst, hrun⟩ := Decoder.bind_eq_ok h
  rw [Varint.length_encodeSigned]
  cases s with
  | nil => cases hfirst
  | cons b tl =>
    cases hfirst
    rw [List.length_cons]
    split_ifs at hrun
    · cases hrun
      have hlow := Int.le_bmod (x := (first.toNat : Int)) (m := 128) (by decide)
      have hhigh := Int.bmod_lt (x := (first.toNat : Int)) (m := 128) (by decide)
      rw [Varint.widthSigned_eq_zero.mpr ⟨hlow, hhigh⟩]
    · obtain ⟨bs, r, hchunk, hrun⟩ := Decoder.bind_eq_ok hrun
      cases hrun
      unfold Decoder.chunk at hchunk
      split_ifs at hchunk with hk
      cases hchunk
      generalize (first &&& 0x7f).toNat = k at hk
      rw [List.length_drop]
      split_ifs with hempty
      · have hwidth : Varint.widthSigned (ofOctetsSigned [signOctet scratch]) = 0 := by
          unfold signOctet
          split_ifs <;> decide
        omega
      · have hlen : (t.take k).length = k := List.length_take_of_le hk
        have hrange := ofOctetsSigned_range hlen
        have hpos : 0 < k := hlen ▸ List.length_pos_iff.mpr hempty
        have hwidth := Varint.widthSigned_le_of_range hpos hrange.1 hrange.2
        omega
    · cases hrun

namespace Oer

theorem sizeofInt_eq (v : Int32) : (sizeofInt v).toNat = (Varint.encodeSigned v.toInt).length := by
  rw [Varint.length_encodeSigned]
  unfold sizeofInt Varint.widthSigned
  simp only [Int32.lt_iff_toInt_lt, Int32.le_iff_toInt_le, ge_iff_le, Int32.reduceToInt]
  split_ifs <;> first | rfl | omega

theorem toNat_toUInt32 (v : Int32) : (v.toInt % 2^32).toNat = v.toUInt32.toNat := by
  change (v.toBitVec.toInt % ((2^32 : Nat) : Int)).toNat = v.toBitVec.toNat
  rw [← BitVec.toNat_ofInt, BitVec.ofInt_toInt]

theorem low_seven_signed (v : Int32) :
    (v.toUInt32 &&& 0x7f).toUInt8 = UInt8.ofNat (v.toInt % 128).toNat := by
  have hword := toNat_toUInt32 v
  apply UInt8.toNat_inj.mp
  rw [UInt32.toNat_toUInt8, UInt32.toNat_and, UInt8.toNat_ofNat']
  change (v.toUInt32.toNat &&& 2^7 - 1) % 2^8 = _
  rw [Nat.and_two_pow_sub_one_eq_mod]
  omega

theorem putInt_eq (v : Int32) : putInt v = fun s => s.write (Varint.encodeSigned v.toInt) := by
  have hoctets := octets_u32 v.toUInt32
  simp only [octets, List.cons.injEq, and_true] at hoctets
  obtain ⟨h3, h2, h1, h0⟩ := hoctets
  have hbytes : sizeofInt v = UInt8.ofNat (Varint.widthSigned v.toInt + 1) := by
    rw [← Varint.length_encodeSigned, ← sizeofInt_eq, UInt8.ofNat_toNat]
  funext s
  simp only [putInt, encodeVarint, if_true, Int32.toInt32_toUInt32, Varint.encodeSigned, hbytes,
    toNat_toUInt32]
  have hle := Varint.widthSigned_le v.toInt
  obtain hw | hw | hw | hw | hw : Varint.widthSigned v.toInt = 0 ∨ Varint.widthSigned v.toInt = 1 ∨
    Varint.widthSigned v.toInt = 2 ∨ Varint.widthSigned v.toInt = 3 ∨
    Varint.widthSigned v.toInt = 4 := by omega
  · rw [hw, low_seven_signed, Varint.short_eq]
    rfl
  all_goals
    rw [hw]
    simp only [Varint.long, octets, h3, h2, h1, h0]
    rfl

theorem putInt_appends (v : Int32) : (putInt v).Appends (Varint.encodeSigned v.toInt) := by
  rw [putInt_eq]
  exact Putter.Appends.write _

theorem getInt_of_toInt {scratch : UInt8} {n : Int} {t u : Stream}
    (h : (do return (← getInt scratch).toInt : Getter Int) t = (some n, u)) :
    ∃ w, getInt scratch t = (some w, u) ∧ w.toInt = n := by
  obtain ⟨w, t', hget, hrun⟩ := Getter.bind_eq_some h
  cases hrun
  exact ⟨w, hget, rfl⟩

/-- aloof_oer_putInt says true and writes aloof_oer_sizeofInt bytes, from which aloof_oer_getInt
gets the number back, and from fewer bytes it never does. -/
def IntRoundTrips (v : Int32) (s : Stream) : Prop :=
  (∃ bs, bs.length = (sizeofInt v).toNat ∧ putInt v s = (true, s.append bs)) ∧
  (∀ scratch, getInt scratch ((putInt v s).2.seekSet s.pos).2 = (some v, (putInt v s).2)) ∧
  ∀ scratch t u, getInt scratch t = (some v, u) →
    t.pos.toNat + (sizeofInt v).toNat ≤ u.pos.toNat

theorem int_roundTrip (v : Int32) (s : Stream) (hr : s.readable = true) (hw : s.writable = true)
    (hroom : 5 ≤ s.room) : IntRoundTrips v s := by
  have hsize := sizeofInt_eq v
  have hle : (Varint.encodeSigned v.toInt).length ≤ 5 := by
    rw [Varint.length_encodeSigned]
    exact Nat.succ_le_succ (Varint.widthSigned_le v.toInt)
  have hput := (putInt_appends v).ok (s := s) ⟨hw, by omega⟩
  refine ⟨⟨_, hsize.symm, hput⟩, ?_, ?_⟩
  · intro scratch
    have hget := (getInt_implements scratch).reread
      (Grammar.int_decodes scratch v.le_toInt v.toInt_lt) hr (s := s) (by omega)
    obtain ⟨w, hrun, hvalue⟩ := getInt_of_toInt hget
    rw [Int32.toInt_inj.mp hvalue] at hrun
    rw [hput]
    exact hrun
  · intro scratch t u hget
    have hint : (do return (← getInt scratch).toInt : Getter Int) t = (some v.toInt, u) := by
      rw [Getter.bind_of_some hget]
      rfl
    obtain ⟨tl, hd, rfl⟩ := Getter.ImplementsAt.of_some (getInt_implements scratch t) hint
    have htakes := Grammar.int_takes hd
    rw [Stream.toNat_pos_after, hsize]
    omega

theorem int_roundTrip_blank : IntRoundTrips (-129) blank :=
  int_roundTrip (-129) blank rfl rfl (Nat.le_refl 5)

end Oer

end Aloof.C
