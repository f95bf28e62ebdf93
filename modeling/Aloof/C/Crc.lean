import Mathlib.Data.Nat.Bitwise

namespace Aloof.C.Crc

def ccitt16Begin : UInt16 := 0xffff

/-- The body of the loop. -/
def ccitt16Shift (crc : UInt16) : UInt16 :=
  (crc <<< 1) ^^^ (if crc &&& ((1 : UInt16) <<< 15) ≠ 0 then 0x1021 else 0)

def ccitt16Loop : Nat → UInt16 → UInt16
  | 0, crc => crc
  | i + 1, crc => ccitt16Loop i (ccitt16Shift crc)

def ccitt16Update (crc : UInt16) (c : UInt8) : UInt16 :=
  ccitt16Loop 8 (crc ^^^ (c.toUInt16 <<< 8))

def ccitt16Final (crc : UInt16) : UInt16 := crc

def ccitt16Block (bytes : List UInt8) : UInt16 :=
  ccitt16Final (bytes.foldl ccitt16Update ccitt16Begin)

/-- The two bytes of a CRC, the high one first. -/
def ccitt16Bytes (crc : UInt16) : List UInt8 := [(crc >>> 8).toUInt8, crc.toUInt8]

theorem block_append (bs cs : List UInt8) :
    ccitt16Block (bs ++ cs) = cs.foldl ccitt16Update (ccitt16Block bs) := List.foldl_append

/-- Without a bit to lose the polynomial does not come in. -/
theorem toNat_shift {crc : UInt16} (h : crc.toNat < 2^15) :
    (ccitt16Shift crc).toNat = crc.toNat * 2 := by
  have hbit : crc &&& ((1 : UInt16) <<< 15) = 0 := by
    apply UInt16.toNat_inj.mp
    rw [UInt16.toNat_and]
    change crc.toNat &&& 2^15 = 0
    rw [Nat.and_two_pow, Nat.testBit_lt_two_pow h]
    rfl
  rw [ccitt16Shift, if_neg (not_not.mpr hbit), UInt16.xor_zero, UInt16.toNat_shiftLeft]
  change crc.toNat <<< 1 % 2^16 = _
  rw [Nat.shiftLeft_eq, Nat.pow_one, Nat.mod_eq_of_lt (by omega)]

theorem toNat_loop (n : Nat) {crc : UInt16} (h : crc.toNat * 2^n < 2^16) :
    (ccitt16Loop n crc).toNat = crc.toNat * 2^n := by
  induction n generalizing crc with
  | zero => exact (Nat.mul_one _).symm
  | succ n ih =>
    have hpow : 2^(n + 1) = 2 * 2^n := by rw [Nat.pow_succ, Nat.mul_comm]
    have hpos : 0 < 2^n := Nat.two_pow_pos n
    rw [hpow, ← Nat.mul_assoc] at h ⊢
    have hlow : crc.toNat * 2 < 2^16 :=
      Nat.lt_of_le_of_lt (Nat.le_mul_of_pos_right _ hpos) h
    have hshift : (ccitt16Shift crc).toNat = crc.toNat * 2 := toNat_shift (by omega)
    rw [ccitt16Loop, ih (by rwa [hshift]), hshift]

/-- Xor with the high byte clears it. -/
theorem clear_high (crc : UInt16) :
    crc ^^^ ((crc >>> 8).toUInt8.toUInt16 <<< 8) = crc.toUInt8.toUInt16 := by
  apply UInt16.toNat_inj.mp
  apply Nat.eq_of_testBit_eq
  intro i
  rw [UInt16.toNat_xor, UInt16.toNat_shiftLeft, UInt8.toNat_toUInt16, UInt8.toNat_toUInt16,
    UInt16.toNat_toUInt8, UInt16.toNat_toUInt8, UInt16.toNat_shiftRight, Nat.testBit_xor]
  change (crc.toNat.testBit i ^^ ((crc.toNat >>> 8 % 2^8) <<< 8 % 2^16).testBit i) =
    (crc.toNat % 2^8).testBit i
  rw [Nat.testBit_mod_two_pow, Nat.testBit_mod_two_pow, Nat.testBit_shiftLeft,
    Nat.testBit_mod_two_pow, Nat.testBit_shiftRight]
  rcases Nat.lt_or_ge i 8 with hlow | hhigh
  · simp [hlow, Nat.not_le.mpr hlow]
  rcases Nat.lt_or_ge i 16 with hmid | hout
  · have hsub : i - 8 < 8 := by omega
    simp [hmid, hhigh, hsub, Nat.not_lt.mpr hhigh, Nat.add_sub_cancel' hhigh]
  · have hnone : crc.toNat.testBit i = false := by
      apply Nat.testBit_lt_two_pow
      exact Nat.lt_of_lt_of_le crc.toNat_lt (Nat.pow_le_pow_right Nat.two_pos hout)
    simp [hnone, Nat.not_lt.mpr hout, Nat.not_lt.mpr hhigh]

/-- The high byte of a CRC moves its low byte up. -/
theorem update_high (crc : UInt16) :
    ccitt16Update crc (crc >>> 8).toUInt8 = crc.toUInt8.toUInt16 <<< 8 := by
  have hlow := crc.toUInt8.toNat_lt
  rw [ccitt16Update, clear_high]
  apply UInt16.toNat_inj.mp
  have htoNat : crc.toUInt8.toUInt16.toNat = crc.toUInt8.toNat := UInt8.toNat_toUInt16 _
  rw [toNat_loop 8 (by rw [htoNat]; omega), UInt16.toNat_shiftLeft, htoNat]
  change _ = crc.toUInt8.toNat <<< 8 % 2^16
  rw [Nat.shiftLeft_eq, Nat.mod_eq_of_lt (by omega)]

/-- And the low byte clears it again. -/
theorem update_low (low : UInt8) : ccitt16Update (low.toUInt16 <<< 8) low = 0 := by
  rw [ccitt16Update, UInt16.xor_self]
  decide

/-- A block with its CRC behind it has the CRC 0. -/
theorem block_residue (bs : List UInt8) :
    ccitt16Block (bs ++ ccitt16Bytes (ccitt16Block bs)) = 0 := by
  rw [block_append, ccitt16Bytes, List.foldl_cons, List.foldl_cons, update_high, update_low]
  rfl

end Aloof.C.Crc
