import Mathlib.Logic.Function.Basic

namespace Aloof.Framework

/-- A register that shifts up and takes in poly for the bit it loses. -/
structure Feedback (w : Nat) where
  poly : BitVec w
  /-- The constant term tells by the bit that comes in whether one was lost. -/
  constant : poly.getLsbD 0 = true

namespace Feedback

variable {w : Nat}

def step (f : Feedback w) (r : BitVec w) : BitVec w :=
  (r <<< 1) ^^^ (if r.msb then f.poly else 0)

def steps (f : Feedback w) : Nat → BitVec w → BitVec w
  | 0, r => r
  | n + 1, r => steps f n (f.step r)

variable (f : Feedback w)

/-- What goes in of poly is the same for the sum as for both parts. -/
theorem step_xor (r t : BitVec w) : f.step (r ^^^ t) = f.step r ^^^ f.step t := by
  apply BitVec.eq_of_getLsbD_eq
  intro i _
  rw [step, step, step, BitVec.msb_xor]
  simp only [BitVec.getLsbD_xor, BitVec.shiftLeft_xor_distrib]
  cases r.msb <;> cases t.msb <;> cases (r <<< 1).getLsbD i <;> cases (t <<< 1).getLsbD i <;>
    simp

theorem step_eq_zero {r : BitVec w} (h : f.step r = 0) : r = 0 := by
  have hmsb : r.msb = false := by
    have hlow : (f.step r).getLsbD 0 = false := by rw [h]; exact BitVec.getLsbD_zero
    rw [step, BitVec.getLsbD_xor, BitVec.getLsbD_shiftLeft] at hlow
    cases hr : r.msb with
    | false => rfl
    | true => simp [hr, f.constant] at hlow
  rw [step, hmsb, if_neg Bool.false_ne_true, BitVec.ofNat_eq_ofNat, BitVec.xor_zero] at h
  apply BitVec.eq_of_getLsbD_eq
  intro i hi
  rcases Nat.lt_or_ge (i + 1) w with hnext | htop
  · have hbit : (r <<< 1).getLsbD (i + 1) = r.getLsbD i := by
      rw [BitVec.getLsbD_shiftLeft]
      simp [hnext]
    rw [← hbit, h, BitVec.ofNat_eq_ofNat, BitVec.getLsbD_zero, BitVec.getLsbD_zero]
  · have hlast : r.getLsbD i = r.msb := by
      rw [BitVec.msb_eq_getLsbD_last]
      congr 1
      omega
    rw [hlast, hmsb, BitVec.ofNat_eq_ofNat, BitVec.getLsbD_zero]

theorem step_injective : Function.Injective f.step := by
  intro r t h
  have hzero : f.step (r ^^^ t) = 0 := by rw [step_xor, h, BitVec.xor_self]; rfl
  exact BitVec.xor_eq_zero_iff.mp (f.step_eq_zero hzero)

theorem steps_injective (n : Nat) : Function.Injective (f.steps n) := by
  induction n with
  | zero => exact Function.injective_id
  | succ n ih =>
    intro r t h
    exact f.step_injective (ih h)

end Feedback

end Aloof.Framework
