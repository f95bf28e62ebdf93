import Mathlib.Tactic.SplitIfs
import Mathlib.Tactic.Ring

namespace Aloof.Framework

/-- x / 2^n, rounded to the nearest integer, and to an even one from the middle. -/
def roundEven (x n : Nat) : Nat :=
  if 2^n < 2 * (x % 2^n) ∨ (2^n = 2 * (x % 2^n) ∧ x / 2^n % 2 = 1) then x / 2^n + 1 else x / 2^n

theorem roundEven_mul (x n : Nat) : roundEven (x * 2^n) n = x := by
  have hpos : 0 < 2^n := Nat.two_pow_pos n
  rw [roundEven, Nat.mul_mod_left, Nat.mul_div_left x hpos, if_neg (by omega)]

namespace Binary32

/-- Above infinity, but for the sign. -/
def IsNaN (v : UInt32) : Prop := 255 * 2^23 < v.toNat % 2^31

instance (v : UInt32) : Decidable (IsNaN v) := inferInstanceAs (Decidable (_ < _))

/-- The pattern of 63 bits with the value of a pattern of 31 bits. -/
def widenMagnitude (x : Nat) : Nat :=
  if 255 * 2^23 < x then 2047 * 2^52 + 2^51 + x % 2^22 * 2^29
  else if x = 255 * 2^23 then 2047 * 2^52
  else if 2^23 ≤ x then x * 2^29 + 896 * 2^52
  else if x = 0 then 0
  -- a subnormal number is a normal one in the longer format
  else (x.log2 + 874) * 2^52 + (x * 2^(52 - x.log2) - 2^52)

/-- The binary64 with the value of a binary32. -/
def widen (v : UInt32) : UInt64 :=
  UInt64.ofNat (v.toNat / 2^31 * 2^63 + widenMagnitude (v.toNat % 2^31))

/-- 1, the least positive number and infinity -/
example : widen 0x3f800000 = 0x3ff0000000000000 ∧ widen 1 = 0x36a0000000000000 ∧
    widen 0x7f800000 = 0x7ff0000000000000 := by
  decide

end Binary32

namespace Binary64

def IsNaN (d : UInt64) : Prop := 2047 * 2^52 < d.toNat % 2^63

instance (d : UInt64) : Decidable (IsNaN d) := inferInstanceAs (Decidable (_ < _))

def IsZero (d : UInt64) : Prop := d.toNat % 2^63 = 0

instance (d : UInt64) : Decidable (IsZero d) := inferInstanceAs (Decidable (_ = _))

/-- The comparison: 0.0 and -0.0 are equal, and a NaN is not equal to itself. -/
def Eq (d d' : UInt64) : Prop := ¬ IsNaN d ∧ ¬ IsNaN d' ∧ (d = d' ∨ (IsZero d ∧ IsZero d'))

instance (d d' : UInt64) : Decidable (Eq d d') := inferInstanceAs (Decidable (_ ∧ _ ∧ (_ ∨ _)))

/-- The pattern of 31 bits nearest to a pattern of 63 bits. -/
def narrowMagnitude (y : Nat) : Nat :=
  let exponent := y / 2^52
  let significand := if exponent = 0 then y else 2^52 + y % 2^52
  if 2047 * 2^52 < y then 255 * 2^23 + 2^22
  else min (255 * 2^23) ((exponent - 897) * 2^23 + roundEven significand (29 + (897 - exponent)))

/-- The binary32 nearest to a binary64. -/
def narrow (d : UInt64) : UInt32 :=
  UInt32.ofNat (d.toNat / 2^63 * 2^31 + narrowMagnitude (d.toNat % 2^63))

/-- 0.1 -/
example : narrow 0x3fb999999999999a = 0x3dcccccd ∧ Binary32.widen 0x3dcccccd = 0x3fb99999a0000000 := by
  decide

end Binary64

namespace Binary32

/-- The leading bit of a subnormal number becomes the implicit one. -/
theorem normalized {x : Nat} (hx : x ≠ 0) (hlt : x < 2^23) :
    x.log2 < 23 ∧ 2^52 ≤ x * 2^(52 - x.log2) ∧ x * 2^(52 - x.log2) < 2^53 := by
  have hlog : x.log2 < 23 := (Nat.log2_lt hx).mpr hlt
  have hsplit : 2^52 = 2^x.log2 * 2^(52 - x.log2) := by
    rw [← pow_add]
    congr 1
    omega
  have hsplit' : 2^53 = 2^(x.log2 + 1) * 2^(52 - x.log2) := by
    rw [← pow_add]
    congr 1
    omega
  refine ⟨hlog, ?_, ?_⟩
  · rw [hsplit]
    exact Nat.mul_le_mul_right _ (Nat.log2_self_le hx)
  · rw [hsplit']
    exact Nat.mul_lt_mul_of_pos_right Nat.lt_log2_self (Nat.two_pow_pos _)

/-- There is no carry into the sign, and only a NaN becomes a NaN. -/
theorem widenMagnitude_bounds {x : Nat} (hx : x < 2^31) :
    widenMagnitude x < 2^63 ∧ (2047 * 2^52 < widenMagnitude x ↔ 255 * 2^23 < x) := by
  unfold widenMagnitude
  split_ifs with hnan hinf hnormal hzero
  · omega
  · omega
  · omega
  · omega
  · obtain ⟨hlog, hlow, hhigh⟩ := normalized hzero (Nat.not_le.mp hnormal)
    omega

/-- Nothing is rounded on the way back. -/
theorem narrowMagnitude_widenMagnitude {x : Nat} (hx : x ≤ 255 * 2^23) :
    Binary64.narrowMagnitude (widenMagnitude x) = x := by
  unfold widenMagnitude
  split_ifs with hnan hinf hnormal hzero
  · omega
  · subst hinf
    decide
  · have hexponent : (x * 2^29 + 896 * 2^52) / 2^52 = x / 2^23 + 896 := by omega
    have hfraction : 2^52 + (x * 2^29 + 896 * 2^52) % 2^52 = (2^23 + x % 2^23) * 2^29 := by omega
    have hround := roundEven_mul (2^23 + x % 2^23) 29
    simp only [Binary64.narrowMagnitude, hexponent, hfraction]
    rw [if_neg (by omega), if_neg (by omega), show 29 + (897 - (x / 2^23 + 896)) = 29 by omega,
      hround]
    omega
  · subst hzero
    have hround := roundEven_mul 0 (29 + (897 - 0))
    rw [Nat.zero_mul] at hround
    rw [Binary64.narrowMagnitude, Nat.zero_div, if_pos rfl, if_neg (by omega), hround]
    rfl
  · obtain ⟨hlog, hlow, hhigh⟩ := normalized hzero (Nat.not_le.mp hnormal)
    have hround := roundEven_mul x (52 - x.log2)
    generalize x * 2^(52 - x.log2) = significand at hlow hhigh hround ⊢
    have hexponent : ((x.log2 + 874) * 2^52 + (significand - 2^52)) / 2^52 = x.log2 + 874 := by
      omega
    have hfraction : 2^52 + ((x.log2 + 874) * 2^52 + (significand - 2^52)) % 2^52 =
        significand := by
      omega
    simp only [Binary64.narrowMagnitude, hexponent, hfraction]
    rw [if_neg (by omega), if_neg (by omega),
      show 29 + (897 - (x.log2 + 874)) = 52 - x.log2 by omega, hround]
    omega

theorem magnitude_bounds (v : UInt32) : widenMagnitude (v.toNat % 2^31) < 2^63 ∧
    (2047 * 2^52 < widenMagnitude (v.toNat % 2^31) ↔ IsNaN v) :=
  widenMagnitude_bounds (Nat.mod_lt v.toNat (by omega))

theorem toNat_widen (v : UInt32) :
    (widen v).toNat = v.toNat / 2^31 * 2^63 + widenMagnitude (v.toNat % 2^31) := by
  have hv := v.toNat_lt
  have hlt := (magnitude_bounds v).1
  exact UInt64.toNat_ofNat_of_lt' (show _ < 2^64 by omega)

theorem toNat_widen_mod (v : UInt32) :
    (widen v).toNat % 2^63 = widenMagnitude (v.toNat % 2^31) := by
  have hlt := (magnitude_bounds v).1
  rw [toNat_widen]
  omega

theorem isNaN_widen (v : UInt32) : Binary64.IsNaN (widen v) ↔ IsNaN v := by
  rw [Binary64.IsNaN, toNat_widen_mod]
  exact (magnitude_bounds v).2

theorem narrow_widen {v : UInt32} (h : ¬ IsNaN v) : Binary64.narrow (widen v) = v := by
  have hlt := (magnitude_bounds v).1
  have hsign : (widen v).toNat / 2^63 = v.toNat / 2^31 := by
    rw [toNat_widen]
    omega
  rw [Binary64.narrow, hsign, toNat_widen_mod, narrowMagnitude_widenMagnitude (Nat.not_lt.mp h),
    Nat.div_add_mod', UInt32.ofNat_toNat]

/-- Each zero is the value of a binary32. -/
theorem zero_widen {d : UInt64} (h : Binary64.IsZero d) : ∃ v, d = widen v := by
  have hd := d.toNat_lt
  have hzero : d = 0 ∨ d = 0x8000000000000000 := by
    rw [← UInt64.toNat_inj, ← UInt64.toNat_inj]
    change d.toNat = 0 ∨ d.toNat = 2^63
    have hmod : d.toNat % 2^63 = 0 := h
    omega
  rcases hzero with rfl | rfl
  · exact ⟨0, by decide⟩
  · exact ⟨0x80000000, by decide⟩

end Binary32

namespace Binary64

/-- What survives the short format are its own values, but for NaN. -/
theorem eq_widen_narrow (d : UInt64) :
    Eq d (Binary32.widen (narrow d)) ↔ ¬ IsNaN d ∧ ∃ v, d = Binary32.widen v := by
  constructor
  · rintro ⟨hd, -, heq | ⟨hzero, -⟩⟩
    · exact ⟨hd, narrow d, heq⟩
    · exact ⟨hd, Binary32.zero_widen hzero⟩
  · rintro ⟨hd, v, rfl⟩
    rw [Binary32.narrow_widen (mt (Binary32.isNaN_widen v).mpr hd)]
    exact ⟨hd, hd, .inl rfl⟩

end Binary64

end Aloof.Framework
