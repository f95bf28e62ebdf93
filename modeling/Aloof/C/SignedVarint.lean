import Aloof.C.OerProof

namespace Aloof.C

open Framework

/-- A long form without octets leaves the number to a byte that was never written. -/
def Grammar.int (scratch : UInt8) : Decoder Unit UInt8 Int := do
  let first ← octet
  if first < 0x80 then pure ((first.toNat : Int).bmod 128)
  else if first &&& 0x7f ≤ 4 then do
    let bs ← Decoder.chunk () (first &&& 0x7f).toNat
    return ofOctetsSigned (if bs = [] then [signOctet scratch] else bs)
  else Decoder.fail ()

namespace Oer

theorem toInt_toInt32 (n : Nat) : (UInt32.ofNat n).toInt32.toInt = (n : Int).bmod (256^4) := by
  have hbits : (UInt32.ofNat n).toInt32.toInt = (BitVec.ofNat 32 n).toInt := rfl
  rw [hbits, BitVec.toInt_ofNat']
  rfl

/-- Up to four octets are a number of 32 bits. -/
theorem ofOctetsSigned_bmod {bs : List UInt8} (h : bs.length ≤ 4) :
    (ofOctetsSigned bs).bmod (256^4) = ofOctetsSigned bs := by
  have hle : 256^bs.length ≤ 256^4 := Nat.pow_le_pow_right (by decide) h
  have hrange := ofOctetsSigned_range (Eq.refl bs.length)
  apply Int.bmod_eq_of_le
  · omega
  · omega

/-- The loop over the octets, in a register that was filled with their sign. -/
theorem toInt_fold {b : UInt8} {bs : List UInt8} (h : (b :: bs).length ≤ 4) :
    ((b :: bs).foldl (fun (out : UInt32) b => (out <<< 8) ||| b.toUInt32)
      (if b < 0x80 then 0 else 0xffffffff)).toInt32.toInt = ofOctetsSigned (b :: bs) := by
  have hstart : (if b < 0x80 then (0 : UInt32) else 0xffffffff) =
      (List.replicate 4 (signOctet b)).foldl
        (fun (out : UInt32) b => (out <<< 8) ||| b.toUInt32) (UInt32.ofNat 0) := by
    unfold signOctet
    split_ifs <;> rfl
  have hdvd : 256^4 ∣ 256^(List.replicate 4 (signOctet b) ++ b :: bs).length :=
    Nat.pow_dvd_pow 256 (by simp)
  rw [hstart, ← List.foldl_append, foldl_step UInt32.ofNat
    (fun out b => (out <<< 8) ||| b.toUInt32) shift_or_u32, toInt_toInt32,
    ← Int.bmod_bmod_of_dvd hdvd]
  change (ofOctetsSigned (List.replicate 4 (signOctet b) ++ b :: bs)).bmod (256^4) = _
  rw [ofOctetsSigned_extend, ofOctetsSigned_bmod h]

theorem sign_bit (b : UInt8) : (b &&& 0x80 == 0x80) = !decide (b < 0x80) := by
  apply forall_octet_lt (P := fun b => (b &&& 0x80 == 0x80) = !decide (b < 0x80)) _ b.toNat_lt
  decide +kernel

/-- The short form has seven bits, and the copies of its bit 6 make 32 of them. -/
theorem toInt_short {first : UInt8} (h : first < 0x80) :
    ((if first &&& 0x40 == 0x40 then (0xffffffc0 : UInt32) else 0) |||
      first.toUInt32).toInt32.toInt = (first.toNat : Int).bmod 128 := by
  apply forall_octet_lt (P := fun b =>
    ((if b &&& 0x40 == 0x40 then (0xffffffc0 : UInt32) else 0) ||| b.toUInt32).toInt32.toInt =
      (b.toNat : Int).bmod 128) _ (UInt8.lt_iff_toNat_lt.mp h)
  decide +kernel

theorem toInt_long (scratch : UInt8) {buffer : List UInt8} (h : buffer.length ≤ 4) :
    (buffer.foldl (fun (out : UInt32) b => (out <<< 8) ||| b.toUInt32)
      (if buffer.headD scratch &&& 0x80 == 0x80 then 0xffffffff else 0)).toInt32.toInt =
    ofOctetsSigned (if buffer = [] then [signOctet scratch] else buffer) := by
  simp only [sign_bit, Bool.not_eq_true', decide_eq_false_iff_not]
  cases buffer with
  | nil =>
    rw [if_pos rfl, List.headD_nil, List.foldl_nil]
    by_cases hs : scratch < 0x80
    · have hzero : signOctet scratch = 0 := if_pos hs
      rw [hzero, if_neg (not_not.mpr hs)]
      decide
    · have hones : signOctet scratch = 0xff := if_neg hs
      rw [hones, if_pos hs]
      decide
  | cons b bs =>
    rw [if_neg (List.cons_ne_nil b bs), List.headD_cons, ← toInt_fold h]
    by_cases hb : b < 0x80
    · rw [if_neg (not_not.mpr hb), if_pos hb]
    · rw [if_pos hb, if_neg hb]

theorem getInt_implements (scratch : UInt8) :
    (do return (← getInt scratch).toInt : Getter Int).Implements (Grammar.int scratch) := by
  intro s
  simp only [getInt, decodeVarint, bind_assoc, pure_bind]
  apply (getU8_implements s).bind
  intro first n hget
  have hr : (s.skip n).readable = true := by
    cases h : s.rest with
    | nil => simp [getU8_of_nil h] at hget
    | cons b tl => exact (getU8_of_cons h).1
  simp only [Bool.true_and]
  by_cases hshort : first < 0x80
  · simp only [if_pos hshort, pure_bind]
    rw [toInt_short hshort]
    exact Getter.Implements.pure _ _
  by_cases hlong : first &&& 0x7f ≤ 4
  · simp only [if_neg hshort, if_pos hlong, bind_assoc, pure_bind]
    rw [← UInt8.toNat_toUInt32]
    apply (Getter.ImplementsAt.read () (Or.inl hr)).bind
    intro buffer m hread
    have hlen : buffer.length ≤ 4 := by
      apply Nat.le_trans (Stream.length_read_le hread)
      rw [UInt8.toNat_toUInt32]
      exact UInt8.le_iff_toNat_le.mp hlong
    rw [toInt_long scratch hlen]
    exact Getter.Implements.pure _ _
  · simp only [if_neg hshort, if_neg hlong]
    exact Getter.Implements.fail () _

end Oer

end Aloof.C
