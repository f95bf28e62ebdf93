import Aloof.C.Crc
import Aloof.Framework.Feedback

namespace Aloof.C.Crc

/-- The register of the CRC. -/
def ccitt16 : Framework.Feedback 16 := ⟨0x1021, rfl⟩

theorem top_bit (crc : UInt16) :
    crc &&& ((1 : UInt16) <<< 15) ≠ 0 ↔ crc.toBitVec.msb = true := by
  have htoNat : (crc &&& ((1 : UInt16) <<< 15)).toNat = (crc.toNat.testBit 15).toNat * 2^15 := by
    rw [UInt16.toNat_and, ← Nat.and_two_pow]
    rfl
  have hmsb : crc.toBitVec.msb = crc.toNat.testBit 15 := BitVec.msb_eq_getLsbD_last _
  rw [hmsb, ne_eq, ← UInt16.toNat_inj, htoNat]
  cases crc.toNat.testBit 15 <;> decide

theorem shift_eq_step (crc : UInt16) : (ccitt16Shift crc).toBitVec = ccitt16.step crc.toBitVec := by
  rw [ccitt16Shift, Framework.Feedback.step]
  by_cases h : crc.toBitVec.msb = true
  · rw [if_pos ((top_bit crc).mpr h), if_pos h]
    rfl
  · rw [if_neg (fun hbit => h ((top_bit crc).mp hbit)), if_neg h]
    rfl

theorem loop_eq_steps (n : Nat) (crc : UInt16) :
    (ccitt16Loop n crc).toBitVec = ccitt16.steps n crc.toBitVec := by
  induction n generalizing crc with
  | zero => rfl
  | succ n ih => rw [ccitt16Loop, ih, shift_eq_step]; rfl

/-- Each byte loses nothing of the register. -/
theorem update_injective (c : UInt8) : Function.Injective (fun crc => ccitt16Update crc c) := by
  intro crc crc' h
  have hsteps : ccitt16.steps 8 (crc ^^^ (c.toUInt16 <<< 8)).toBitVec =
      ccitt16.steps 8 (crc' ^^^ (c.toUInt16 <<< 8)).toBitVec := by
    rw [← loop_eq_steps, ← loop_eq_steps]
    exact congrArg UInt16.toBitVec h
  have hxor := UInt16.toBitVec_inj.mp (ccitt16.steps_injective 8 hsteps)
  exact (UInt16.xor_left_inj _).mp hxor

/-- The register of which a and b are the bytes. -/
def join (a b : UInt8) : UInt16 := (a.toUInt16 <<< 8) ||| b.toUInt16

theorem join_high (a b : UInt8) : ((join a b) >>> 8).toUInt8 = a := by
  apply UInt8.toBitVec_inj.mp
  apply BitVec.eq_of_getLsbD_eq
  intro i hi
  have hmid : 8 + i < 16 := by omega
  have hlow : ¬ (8 + i < 8) := by omega
  simp [join, hi, hmid, hlow]

theorem join_low (a b : UInt8) : (join a b).toUInt8 = b := by
  apply UInt8.toBitVec_inj.mp
  apply BitVec.eq_of_getLsbD_eq
  intro i hi
  simp [join, hi]

/-- Only the register's own bytes take it to 0. -/
theorem eq_join {crc : UInt16} {a b : UInt8}
    (h : ccitt16Update (ccitt16Update crc a) b = 0) : crc = join a b := by
  have hjoin : ccitt16Update (join a b) a = b.toUInt16 <<< 8 := by
    have hhigh := update_high (join a b)
    rwa [join_high, join_low] at hhigh
  apply update_injective a
  apply update_injective b
  change ccitt16Update (ccitt16Update crc a) b = ccitt16Update (ccitt16Update (join a b) a) b
  rw [h, hjoin, update_low]

theorem block_check (M : List UInt8) (a b : UInt8) :
    ccitt16Block (M ++ [a, b]) = 0 ↔
      a = (ccitt16Block M >>> 8).toUInt8 ∧ b = (ccitt16Block M).toUInt8 := by
  constructor
  · intro h
    rw [block_append, List.foldl_cons, List.foldl_cons, List.foldl_nil] at h
    rw [eq_join h, join_high, join_low]
    exact ⟨rfl, rfl⟩
  · intro h
    rw [h.1, h.2]
    exact block_residue M

end Aloof.C.Crc
