import Mathlib.Data.List.Basic
import Mathlib.Tactic.Linarith
import Mathlib.Tactic.Ring

namespace Aloof.Framework

/-- What is true of the first numbers is true of the octets below them. -/
theorem forall_octet_lt {k : Nat} {P : UInt8 → Prop} (h : ∀ n < k, P (UInt8.ofNat n)) {b : UInt8}
    (hb : b.toNat < k) : P b := by
  have hP := h b.toNat hb
  rwa [UInt8.ofNat_toNat] at hP

/-- The k low octets of n, most significant first. -/
def octets : Nat → Nat → List UInt8
  | 0, _ => []
  | k + 1, n => UInt8.ofNat (n / 256^k) :: octets k n

/-- The number a list of octets spells, most significant first. -/
def ofOctets : List UInt8 → Nat
  | [] => 0
  | b :: bs => b.toNat * 256^bs.length + ofOctets bs

@[simp] theorem length_octets (k n : Nat) : (octets k n).length = k := by
  induction k with
  | zero => rfl
  | succ k ih => simp [octets, ih]

/-- Reading k octets back loses exactly the part above 256^k. -/
theorem ofOctets_octets (k n : Nat) : ofOctets (octets k n) = n % 256^k := by
  induction k with
  | zero => simp [octets, ofOctets, Nat.mod_one]
  | succ k ih =>
    rw [octets, ofOctets, length_octets, ih, UInt8.toNat_ofNat',
      Nat.mod_pow_succ (x := n) (b := 256)]
    ring

theorem ofOctets_octets_of_lt {k n : Nat} (h : n < 256^k) : ofOctets (octets k n) = n := by
  rw [ofOctets_octets, Nat.mod_eq_of_lt h]

/-- The accumulating loop of a reader computes the same number. -/
theorem foldl_ofOctets (bs : List UInt8) (acc : Nat) :
    bs.foldl (fun n b => n * 256 + b.toNat) acc = acc * 256^bs.length + ofOctets bs := by
  induction bs generalizing acc with
  | nil => simp [ofOctets]
  | cons b bs ih =>
    rw [List.foldl_cons, ih, ofOctets, List.length_cons, Nat.pow_succ]
    ring

/-- The same loop over another type of numbers, whose step agrees with the step on Nat. -/
theorem foldl_step {α : Type} (ofNat : Nat → α) (step : α → UInt8 → α)
    (h : ∀ n b, step (ofNat n) b = ofNat (n * 256 + b.toNat)) (bs : List UInt8) :
    bs.foldl step (ofNat 0) = ofNat (ofOctets bs) := by
  rw [List.foldl_hom ofNat h, foldl_ofOctets, Nat.zero_mul, Nat.zero_add]

/-- Only the part below 256^k counts. -/
theorem octets_mod (j k n : Nat) (h : j ≤ k) : octets j (n % 256^k) = octets j n := by
  induction j with
  | zero => rfl
  | succ j ih =>
    have hdiv : n % 256^k / 256^j = n / 256^j % 256^(k - j) := by
      rw [← Nat.mod_mul_right_div_self, ← Nat.pow_add, show j + (k - j) = k by omega]
    have hmod : n / 256^j % 256^(k - j) % 256 = n / 256^j % 256 :=
      Nat.mod_mod_of_dvd _ (Dvd.intro_left (256^(k - j - 1)) (by
        rw [← Nat.pow_succ, show (k - j - 1).succ = k - j by omega]))
    rw [octets, octets, ih (by omega), hdiv]
    congr 1
    apply UInt8.toNat_inj.mp
    rw [UInt8.toNat_ofNat', UInt8.toNat_ofNat']
    exact hmod

theorem drop_octets (j k n : Nat) (h : j ≤ k) : (octets k n).drop (k - j) = octets j n := by
  induction k with
  | zero =>
    have hj : j = 0 := by omega
    simp [hj, octets]
  | succ k ih =>
    rcases Nat.eq_or_lt_of_le h with rfl | hlt
    · simp
    · rw [show k + 1 - j = (k - j) + 1 by omega, octets, List.drop_succ_cons, ih (by omega)]

/-- The low end of the little-endian form, turned round, is the short big-endian form. -/
theorem reverse_take_reverse_octets (j k n : Nat) (h : j ≤ k) :
    ((octets k n).reverse.take j).reverse = octets j n := by
  rw [List.reverse_take, List.reverse_reverse, List.length_reverse, length_octets,
    drop_octets j k n h]

theorem ofOctets_lt (bs : List UInt8) : ofOctets bs < 256^bs.length := by
  induction bs with
  | nil => exact Nat.one_pos
  | cons b bs ih =>
    have hb : b.toNat + 1 ≤ 256 := b.toNat_lt
    calc ofOctets (b :: bs) < b.toNat * 256^bs.length + 256^bs.length := Nat.add_lt_add_left ih _
      _ = (b.toNat + 1) * 256^bs.length := by ring
      _ ≤ 256 * 256^bs.length := Nat.mul_le_mul_right _ hb
      _ = 256^(b :: bs).length := by rw [List.length_cons, Nat.pow_succ, Nat.mul_comm]

/-- The number a list of octets spells in two's complement. -/
def ofOctetsSigned (bs : List UInt8) : Int := (ofOctets bs : Int).bmod (256^bs.length)

theorem ofOctetsSigned_octets (k n : Nat) :
    ofOctetsSigned (octets k n) = (n : Int).bmod (256^k) := by
  rw [ofOctetsSigned, ofOctets_octets, length_octets, Int.natCast_mod, Int.emod_bmod]

theorem ofOctetsSigned_range {k : Nat} {bs : List UInt8} (hlen : bs.length = k) :
    -(256^k : Nat) ≤ ofOctetsSigned bs * 2 ∧ ofOctetsSigned bs * 2 < (256^k : Nat) := by
  subst hlen
  have hpos : 0 < 256^bs.length := Nat.pow_pos (by decide)
  have hlow := Int.le_bmod (x := (ofOctets bs : Int)) hpos
  have hhigh := Int.bmod_lt (x := (ofOctets bs : Int)) hpos
  unfold ofOctetsSigned
  generalize (ofOctets bs : Int).bmod (256^bs.length) = n at hlow hhigh
  omega

/-- The first octet has the sign. -/
theorem ofOctetsSigned_cons (b : UInt8) (bs : List UInt8) :
    ofOctetsSigned (b :: bs) = if b < 0x80 then (ofOctets (b :: bs) : Int)
      else (ofOctets (b :: bs) : Int) - ((256 * 256^bs.length : Nat) : Int) := by
  have hrest := ofOctets_lt bs
  have hb := b.toNat_lt
  have hsplit : ofOctets (b :: bs) = b.toNat * 256^bs.length + ofOctets bs := rfl
  have hpow : 256^(b :: bs).length = 256 * 256^bs.length := by
    rw [List.length_cons, Nat.pow_succ, Nat.mul_comm]
  have hsign : b < 0x80 ↔ b.toNat < 128 := UInt8.lt_iff_toNat_lt
  rw [ofOctetsSigned, hpow]
  by_cases h : b < 0x80
  · rw [if_pos h]
    rw [hsign] at h
    have hle : b.toNat * 256^bs.length ≤ 127 * 256^bs.length :=
      Nat.mul_le_mul_right _ (by omega)
    exact Int.bmod_eq_of_le (by omega) (by omega)
  · rw [if_neg h, ← Int.sub_bmod_right]
    rw [hsign] at h
    have hle : 128 * 256^bs.length ≤ b.toNat * 256^bs.length :=
      Nat.mul_le_mul_right _ (by omega)
    have hle' : b.toNat * 256^bs.length ≤ 255 * 256^bs.length :=
      Nat.mul_le_mul_right _ (by omega)
    exact Int.bmod_eq_of_le (by omega) (by omega)

/-- The octet that is all sign. -/
def signOctet (b : UInt8) : UInt8 := if b < 0x80 then 0 else 0xff

theorem signOctet_signOctet (b : UInt8) : signOctet (signOctet b) = signOctet b := by
  by_cases h : b < 0x80
  · have hzero : signOctet b = 0 := if_pos h
    rw [hzero]
    decide
  · have hones : signOctet b = 0xff := if_neg h
    rw [hones]
    decide

/-- An octet in front that repeats the sign changes nothing. -/
theorem ofOctetsSigned_sign (b : UInt8) (bs : List UInt8) :
    ofOctetsSigned (signOctet b :: b :: bs) = ofOctetsSigned (b :: bs) := by
  have hpow : 256^(b :: bs).length = 256 * 256^bs.length := by
    rw [List.length_cons, Nat.pow_succ, Nat.mul_comm]
  have hsplit (c : UInt8) : ofOctets (c :: b :: bs) =
      c.toNat * (256 * 256^bs.length) + ofOctets (b :: bs) := by
    rw [ofOctets, hpow]
  rw [ofOctetsSigned_cons (signOctet b), ofOctetsSigned_cons b, hpow, hsplit]
  by_cases h : b < 0x80
  · have hzero : signOctet b = 0 := if_pos h
    rw [hzero, if_pos (by decide), if_pos h]
    change ((0 * (256 * 256^bs.length) + ofOctets (b :: bs) : Nat) : Int) = _
    rw [Nat.zero_mul, Nat.zero_add]
  · have hones : signOctet b = 0xff := if_neg h
    rw [hones, if_neg (by decide), if_neg h]
    change ((255 * (256 * 256^bs.length) + ofOctets (b :: bs) : Nat) : Int) - _ = _
    push_cast
    ring

theorem ofOctetsSigned_extend (k : Nat) (b : UInt8) (bs : List UInt8) :
    ofOctetsSigned (List.replicate k (signOctet b) ++ b :: bs) = ofOctetsSigned (b :: bs) := by
  induction k generalizing b bs with
  | zero => rfl
  | succ k ih =>
    have hfront := ih (signOctet b) (b :: bs)
    rw [signOctet_signOctet] at hfront
    rw [List.replicate_succ', List.append_assoc, List.singleton_append, hfront,
      ofOctetsSigned_sign]

end Aloof.Framework
