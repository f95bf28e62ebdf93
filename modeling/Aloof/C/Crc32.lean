import Aloof.Framework.Serial

namespace Aloof.C.Crc

open Framework

def crc32Begin : UInt32 := 0xffffffff

/-- The body of the loop. -/
def crc32Shift (crc : UInt32) : UInt32 :=
  if crc &&& 1 ≠ 0 then (crc >>> 1) ^^^ 0xEDB88320 else crc >>> 1

def crc32Loop : Nat → UInt32 → UInt32
  | 0, crc => crc
  | i + 1, crc => crc32Loop i (crc32Shift crc)

def crc32Update (crc : UInt32) (c : UInt8) : UInt32 := crc32Loop 8 (crc ^^^ c.toUInt32)

def crc32Final (crc : UInt32) : UInt32 := ~~~crc

def crc32Block (bytes : List UInt8) : UInt32 :=
  crc32Final (bytes.foldl crc32Update crc32Begin)

/-- The four bytes of a CRC, the low one first. -/
def crc32Bytes (crc : UInt32) : List UInt8 :=
  [crc.toUInt8, (crc >>> 8).toUInt8, (crc >>> 16).toUInt8, (crc >>> 24).toUInt8]

/-- The register, its bits in reverse order. -/
def crc32 : Feedback 32 := ⟨0x04C11DB7, rfl⟩

def register (crc : UInt32) : BitVec 32 := crc.toBitVec.reverse

theorem register_injective : Function.Injective register := by
  intro crc crc' h
  have hreverse := congrArg BitVec.reverse h
  rw [register, register, BitVec.reverse_reverse_eq, BitVec.reverse_reverse_eq] at hreverse
  exact UInt32.toBitVec_inj.mp hreverse

theorem low_bit (crc : UInt32) : crc &&& 1 ≠ 0 ↔ crc.toBitVec.getLsbD 0 = true := by
  rw [ne_eq, ← UInt32.toBitVec_inj, UInt32.toBitVec_and]
  change ¬ crc.toBitVec &&& 1#32 = 0#32 ↔ _
  rw [BitVec.and_one_eq_setWidth_ofBool_getLsbD]
  cases crc.toBitVec.getLsbD 0 <;> decide

theorem shift_eq_stepDown (crc : UInt32) :
    (crc32Shift crc).toBitVec = crc32.stepDown crc.toBitVec := by
  have hpoly : crc32.poly.reverse = 0xEDB88320 := by decide +kernel
  rw [crc32Shift, Feedback.stepDown, hpoly]
  by_cases h : crc.toBitVec.getLsbD 0 = true
  · rw [if_pos ((low_bit crc).mpr h), if_pos h]
    rfl
  · rw [if_neg fun hbit => h ((low_bit crc).mp hbit), if_neg h, BitVec.ofNat_eq_ofNat,
      BitVec.xor_zero]
    rfl

theorem register_loop (n : Nat) (crc : UInt32) :
    register (crc32Loop n crc) = crc32.steps n (register crc) := by
  induction n generalizing crc with
  | zero => rfl
  | succ n ih =>
    have hstep : register (crc32Shift crc) = crc32.step (register crc) := by
      rw [register, shift_eq_stepDown, crc32.reverse_stepDown, register]
    rw [crc32Loop, ih, hstep]
    rfl

/-- The bits of a byte, the least significant one first. -/
def bitsLow (c : UInt8) : List Bool := (List.range 8).map c.toBitVec.getLsbD

theorem length_bitsLow (c : UInt8) : (bitsLow c).length = 8 := rfl

theorem getElem?_bitsLow (c : UInt8) (i : Nat) :
    (bitsLow c)[i]?.getD false = c.toBitVec.getLsbD i :=
  getElem?_range_map (BitVec.getLsbD_of_ge c.toBitVec) i

theorem bitsLow_injective : Function.Injective bitsLow := by
  intro c d h
  apply UInt8.toBitVec_inj.mp
  apply BitVec.eq_of_getLsbD_eq
  intro i _
  rw [← getElem?_bitsLow, ← getElem?_bitsLow, h]

theorem top_bitsLow (c : UInt8) :
    (Feedback.top (bitsLow c) : BitVec 32) = register c.toUInt32 := by
  apply BitVec.eq_of_getMsbD_eq
  intro i hi
  rw [Feedback.getMsbD_top _ hi, getElem?_bitsLow, register, BitVec.getMsbD_reverse]
  simp [hi]

theorem register_xor (crc crc' : UInt32) :
    register (crc ^^^ crc') = register crc ^^^ register crc' := Feedback.reverse_xor _ _

theorem register_update (crc : UInt32) (c : UInt8) :
    register (crc32Update crc c) = crc32.feed (register crc) (bitsLow c) := by
  rw [crc32Update, register_loop, register_xor, ← top_bitsLow,
    crc32.feed_eq_steps _ (by rw [length_bitsLow]; decide), length_bitsLow]

theorem register_fold (crc : UInt32) (bytes : List UInt8) :
    register (bytes.foldl crc32Update crc) = crc32.feed (register crc) (bytes.flatMap bitsLow) :=
  crc32.foldl_eq_feed register crc32Update bitsLow register_update crc bytes

theorem getElem?_bitsLow_append (c : UInt8) (bits : List Bool) (i : Nat) :
    (bitsLow c ++ bits)[i]?.getD false =
      if i < 8 then c.toBitVec.getLsbD i else bits[i - 8]?.getD false := by
  rw [List.getElem?_append, length_bitsLow]
  split
  · exact getElem?_bitsLow c i
  · rfl

/-- The low byte's low bit is the first out. -/
theorem top_crc32Bytes (crc : UInt32) :
    (Feedback.top ((crc32Bytes crc).flatMap bitsLow) : BitVec 32) = register crc := by
  apply BitVec.eq_of_getMsbD_eq
  intro i hi
  rw [Feedback.getMsbD_top _ hi, register, BitVec.getMsbD_reverse, crc32Bytes]
  simp only [List.flatMap_cons, List.flatMap_nil, getElem?_bitsLow_append]
  split_ifs with h0 h1 h2 h3
  · simp [h0]
  · have hback : 8 + (i - 8) = i := by omega
    simp [h1, hback]
  · have hback : 16 + (i - 8 - 8) = i := by omega
    simp [h2, hback]
  · have hback : 24 + (i - 8 - 8 - 8) = i := by omega
    simp [h3, hback]
  · omega

/-- All ones are left over after any message and its CRC. -/
theorem crc32Loop_ones : crc32Final (crc32Loop 32 0xffffffff) = 0x2144DF1C := by
  decide +kernel

theorem crc32Block_append (bytes check : List UInt8) :
    crc32Block (bytes ++ check) =
      crc32Final (check.foldl crc32Update (~~~(crc32Block bytes))) := by
  simp only [crc32Block, crc32Final, List.foldl_append, UInt32.not_not]

/-- Behind its own CRC every message leaves the same register. -/
theorem crc32Block_residue (bytes : List UInt8) :
    crc32Block (bytes ++ crc32Bytes (crc32Block bytes)) = 0x2144DF1C := by
  rw [crc32Block_append, ← crc32Loop_ones]
  generalize crc32Block bytes = crc
  apply congrArg crc32Final
  apply register_injective
  have hones : ~~~crc ^^^ crc = 0xffffffff := by rw [UInt32.not_xor, UInt32.xor_self]; rfl
  have hlength : ((crc32Bytes crc).flatMap bitsLow).length = 32 := rfl
  rw [register_fold, crc32.feed_eq_steps _ (by rw [hlength]), hlength, top_crc32Bytes,
    ← register_xor, hones, register_loop]

theorem crc32Block_ne {bytes bytes' : List UInt8} (hlen : bytes.length = bytes'.length)
    (hne : bytes ≠ bytes') {start : Nat}
    (hwindow : ∀ k ∈ differing bytes bytes', start ≤ k ∧ k < start + 4) :
    crc32Block bytes ≠ crc32Block bytes' := by
  intro h
  obtain ⟨before, us, vs, after, hbytes, hbytes', huv, hshort⟩ := exists_burst hlen hwindow
  have hregister := congrArg register (UInt32.not_inj.mp h)
  rw [register_fold, register_fold, hbytes, hbytes'] at hregister
  simp only [List.flatMap_append] at hregister
  have hbits : (us.flatMap bitsLow).length = (vs.flatMap bitsLow).length := by
    rw [length_flatMap_word length_bitsLow, length_flatMap_word length_bitsLow, huv]
  have hfit : (us.flatMap bitsLow).length ≤ 32 := by
    rw [length_flatMap_word length_bitsLow]
    omega
  have hdiffer : us.flatMap bitsLow ≠ vs.flatMap bitsLow := by
    intro hsame
    exact hne (by rw [hbytes, hbytes', flatMap_injective length_bitsLow bitsLow_injective hsame])
  exact crc32.feed_burst _ _ _ hbits hfit hdiffer hregister

theorem crc32_exact (M : List UInt8) :
    (∀ t0 t1 t2 t3, crc32Block (M ++ [t0, t1, t2, t3]) = 0x2144DF1C ↔
      [t0, t1, t2, t3] = crc32Bytes (crc32Block M)) ∧
    ∀ M', M.length = M'.length → M ≠ M' →
      (∃ start, ∀ k ∈ differing M M', start ≤ k ∧ k < start + 4) →
      crc32Block M ≠ crc32Block M' := by
  constructor
  · intro t0 t1 t2 t3
    constructor
    · intro h
      by_contra hne
      have hwindow : ∀ k ∈ differing (M ++ [t0, t1, t2, t3]) (M ++ crc32Bytes (crc32Block M)),
          M.length ≤ k ∧ k < M.length + 4 := fun _ => mem_differing_append
      refine crc32Block_ne ?_ ?_ hwindow (h.trans (crc32Block_residue M).symm)
      · simp [crc32Bytes]
      · intro hsame
        exact hne (List.append_cancel_left hsame)
    · intro h
      rw [h]
      exact crc32Block_residue M
  · intro M' hlen hne hclose
    obtain ⟨start, hwindow⟩ := hclose
    exact crc32Block_ne hlen hne hwindow

theorem crc32_exact_burst : crc32Block [0x31, 0x32, 0x33] ≠ crc32Block [0x31, 0x42, 0x43] :=
  (crc32_exact _).2 _ rfl (by decide) ⟨1, by decide⟩

end Aloof.C.Crc
