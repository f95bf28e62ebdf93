import Aloof.Framework.Varint
import Aloof.Ruby.Codec

namespace Aloof.Ruby

open Framework

theorem pack_natCast (k n : Nat) : pack k n = octets k n := by
  rw [pack, ← octets_mod k k n (Nat.le_refl k)]
  norm_cast

/-- Packing and unpacking a signed number go through its two's complement. -/
theorem pack_toInt {k w : Nat} (hw : 256^k = 2^w) (b : BitVec w) :
    pack k b.toInt = octets k b.toNat := by
  have hmod : (b.toInt % 256^k).toNat = b.toNat := by
    have hpow : (256 : Int)^k = ((2^w : Nat) : Int) := by exact_mod_cast hw
    rw [hpow, ← BitVec.toNat_ofInt, BitVec.ofInt_toInt]
  rw [pack, hmod]

namespace OutputCodec

theorem putUint_eq (n : Nat) : putUint n = Varint.encode n := by
  have hlong (k : Nat) (hk : k ≤ 4) :
      ((pack 4 n).reverse.take k).reverse = octets k n := by
    rw [pack_natCast, reverse_take_reverse_octets k 4 n hk]
  simp only [putUint, sizeofUint, Varint.encode]
  split_ifs
  · exact pack_natCast 1 n
  all_goals
    simp only [hlong, Nat.reduceSub, Nat.reduceLeDiff, Nat.le_refl]
    rfl

theorem length_encode (n : Nat) : (Varint.encode n).length = sizeofUint n := by
  unfold Varint.encode sizeofUint
  split_ifs <;> simp [Varint.short, Varint.long]

theorem length_encode_le (n : Nat) : (Varint.encode n).length ≤ 5 := by
  rw [length_encode]
  unfold sizeofUint
  split_ifs <;> omega

end OutputCodec

namespace InputCodec

theorem getByte_cons (b : UInt8) (rest : List UInt8) : getByte (b :: rest) = .ok (b, rest) := rfl

theorem slice_decodes {k : Nat} {bs : List UInt8} (h : bs.length = k) :
    Decoder.Decodes (slice k) bs bs := by
  subst h
  exact Decoder.Decodes.chunk Error.eof bs

theorem unsigned_decodes {k n : Nat} (h : n < 256^k) :
    Decoder.Decodes (unsigned k) (octets k n) n := by
  have hslice := (slice_decodes (length_octets k n)).map fun bs => (ofOctets bs : Int)
  rwa [ofOctets_octets_of_lt h] at hslice

theorem signed_decodes {k w : Nat} (hw : 256^k = 2^w) (b : BitVec w) :
    Decoder.Decodes (signed k) (octets k b.toNat) b.toInt := by
  have hslice := (slice_decodes (length_octets k b.toNat)).map
    fun bs => (ofOctets bs : Int).bmod (256^k)
  rwa [ofOctets_octets_of_lt (hw ▸ b.isLt), hw, ← BitVec.toInt_eq_toNat_bmod, ← hw] at hslice

theorem getSingle_decodes (v : UInt32) : Decoder.Decodes getSingle (octets 4 v.toNat) v := by
  have hslice := (slice_decodes (length_octets 4 v.toNat)).map
    fun bs => UInt32.ofNat (ofOctets bs)
  rwa [ofOctets_octets_of_lt v.toNat_lt, UInt32.ofNat_toNat] at hslice

/-- A Float loses what 32 bits do not hold. -/
theorem getFloat_decodes (d : UInt64) :
    Decoder.Decodes getFloat (OutputCodec.putFloat d) (Binary32.widen (Binary64.narrow d)) := by
  rw [OutputCodec.putFloat, OutputCodec.putSingle, pack_natCast]
  exact (getSingle_decodes (Binary64.narrow d)).map Binary32.widen

theorem getDouble_decodes (v : UInt64) : Decoder.Decodes getDouble (octets 8 v.toNat) v := by
  have hslice := (slice_decodes (length_octets 8 v.toNat)).map
    fun bs => UInt64.ofNat (ofOctets bs)
  rwa [ofOctets_octets_of_lt v.toNat_lt, UInt64.ofNat_toNat] at hslice

/-- Padded with zeros and read from its low end, a slice of up to four bytes is its number. -/
theorem unpack_padded {bs : List UInt8} (h : bs.length ≤ 4) :
    ofOctets ((bs.reverse ++ padding1).take 4).reverse = ofOctets bs := by
  rcases bs with _ | ⟨a, _ | ⟨b, _ | ⟨c, _ | ⟨d, _ | ⟨e, tl⟩⟩⟩⟩⟩
  case cons.cons.cons.cons.cons =>
    simp only [List.length_cons] at h
    omega
  all_goals simp [padding1, ofOctets]

/-- Padded with the sign, it is the number in two's complement. -/
theorem unpack_extended {b : UInt8} {bs : List UInt8} (h : (b :: bs).length ≤ 4) :
    (ofOctets (((b :: bs).reverse ++ if b < 0x80 then padding1 else padding2).take 4).reverse :
      Int).bmod (256^4) = ofOctetsSigned (b :: bs) := by
  have hpadding : (if b < 0x80 then padding1 else padding2) = List.replicate 4 (signOctet b) := by
    unfold signOctet
    split_ifs <;> rfl
  have hword : (((b :: bs).reverse ++ List.replicate 4 (signOctet b)).take 4).reverse =
      List.replicate (4 - (b :: bs).length) (signOctet b) ++ b :: bs := by
    rw [List.take_append, List.length_reverse, List.take_of_length_le (by simpa using h),
      List.take_replicate, Nat.min_eq_left (Nat.sub_le _ _), List.reverse_append,
      List.reverse_reverse, List.reverse_replicate]
  have hlen : (List.replicate (4 - (b :: bs).length) (signOctet b) ++ b :: bs).length = 4 := by
    rw [List.length_append, List.length_replicate, Nat.sub_add_cancel h]
  rw [hpadding, hword, ← ofOctetsSigned_extend (4 - (b :: bs).length) b bs, ofOctetsSigned, hlen]

theorem getUint_reads : Varint.Reads getUint id where
  short n hn rest := by
    have hfirst : (UInt8.ofNat n).toNat = n :=
      UInt8.toNat_ofNat_of_lt' (Nat.lt_trans hn (by decide))
    have hle : ¬ UInt8.ofNat n > 0x80 := by
      rw [gt_iff_lt, UInt8.lt_iff_toNat_lt, hfirst]
      exact Nat.not_lt.mpr (Nat.le_of_lt hn)
    have hne : UInt8.ofNat n ≠ 0x80 := by
      intro heq
      rw [heq] at hfirst
      exact Nat.lt_irrefl _ (hfirst ▸ hn)
    rw [Varint.short_eq, getUint, List.singleton_append, Decoder.bind_ok (getByte_cons _ rest),
      if_neg hle, if_neg hne, hfirst]
    rfl
  long k n hk hk4 rest := by
    have hfirst : UInt8.ofNat (128 + k) > 0x80 ∧ (UInt8.ofNat (128 + k) &&& 0x7f).toNat = k := by
      obtain rfl | rfl | rfl | rfl : k = 1 ∨ k = 2 ∨ k = 3 ∨ k = 4 := by omega
      all_goals decide
    rw [Varint.long, List.cons_append, getUint,
      Decoder.bind_ok (getByte_cons _ (octets k n ++ rest)), if_pos hfirst.1]
    simp only [hfirst.2]
    rw [if_neg (by simp), if_neg (by omega), List.take_left' (length_octets k n),
      List.drop_left' (length_octets k n), unpack_padded (by simpa using hk4), ofOctets_octets]
    rfl

theorem getString_decodes (bs : List UInt8) (h : bs.length < 2^32) :
    Decoder.Decodes getString (Varint.encode bs.length ++ bs) (RubyString.binary bs) :=
  (getUint_reads.encode h).bind ((slice_decodes rfl).map RubyString.binary)

end InputCodec

end Aloof.Ruby
