import Aloof.C.CrcProof
import Aloof.Framework.Serial

namespace Aloof.C.Crc

open Framework

/-- The bits of a byte, the most significant one first. -/
def bitsHigh (c : UInt8) : List Bool := (List.range 8).map c.toBitVec.getMsbD

def bits (bytes : List UInt8) : List Bool := bytes.flatMap bitsHigh

theorem length_bitsHigh (c : UInt8) : (bitsHigh c).length = 8 := rfl

theorem getElem?_bitsHigh (c : UInt8) (i : Nat) :
    (bitsHigh c)[i]?.getD false = c.toBitVec.getMsbD i :=
  getElem?_range_map (BitVec.getMsbD_of_ge c.toBitVec) i

theorem bitsHigh_injective : Function.Injective bitsHigh := by
  intro c d h
  apply UInt8.toBitVec_inj.mp
  apply BitVec.eq_of_getMsbD_eq
  intro i _
  rw [← getElem?_bitsHigh, ← getElem?_bitsHigh, h]

theorem bits_injective : Function.Injective bits :=
  flatMap_injective length_bitsHigh bitsHigh_injective

theorem length_bits (bytes : List UInt8) : (bits bytes).length = 8 * bytes.length :=
  length_flatMap_word length_bitsHigh bytes

theorem top_bitsHigh (c : UInt8) :
    (Feedback.top (bitsHigh c) : BitVec 16) = (c.toUInt16 <<< 8).toBitVec := by
  apply BitVec.eq_of_getMsbD_eq
  intro i hi
  rw [Feedback.getMsbD_top _ hi, getElem?_bitsHigh]
  simp only [UInt16.toBitVec_shiftLeft, UInt8.toBitVec_toUInt16]
  change _ = (c.toBitVec.setWidth 16 <<< 8).getMsbD i
  rw [BitVec.getMsbD_shiftLeft, BitVec.getMsbD_setWidth]
  simp

/-- A byte goes through the register bit by bit. -/
theorem update_eq_feed (crc : UInt16) (c : UInt8) :
    (ccitt16Update crc c).toBitVec = ccitt16.feed crc.toBitVec (bitsHigh c) := by
  rw [ccitt16Update, loop_eq_steps, UInt16.toBitVec_xor, ← top_bitsHigh,
    ccitt16.feed_eq_steps _ (by rw [length_bitsHigh]; decide), length_bitsHigh]

theorem block_eq_feed (bytes : List UInt8) :
    (ccitt16Block bytes).toBitVec = ccitt16.feed ccitt16Begin.toBitVec (bits bytes) :=
  ccitt16.foldl_eq_feed UInt16.toBitVec ccitt16Update bitsHigh update_eq_feed _ _

theorem block_detects (bs cs : List UInt8) (hlen : bs.length = cs.length) (hne : bs ≠ cs)
    (hpattern : (∃ start, ∀ k ∈ differing (bits bs) (bits cs), start ≤ k ∧ k < start + 16) ∨
      Odd (differing (bits bs) (bits cs)).length) :
    ccitt16Block bs ≠ ccitt16Block cs := by
  have hbits : (bits bs).length = (bits cs).length := by rw [length_bits, length_bits, hlen]
  intro hblock
  have hfeed := congrArg UInt16.toBitVec hblock
  rw [block_eq_feed, block_eq_feed] at hfeed
  cases hpattern with
  | inl hburst =>
    obtain ⟨start, hwindow⟩ := hburst
    obtain ⟨before, us, vs, after, hbs, hcs, huv, hshort⟩ := exists_burst hbits hwindow
    have hdiffer : us ≠ vs := by
      intro h
      exact hne (bits_injective (by rw [hbs, hcs, h]))
    rw [hbs, hcs] at hfeed
    exact ccitt16.feed_burst _ before after huv hshort hdiffer hfeed
  | inr hodd =>
    have hpoly : Feedback.parity ccitt16.poly = 1 := by decide
    exact ccitt16.feed_odd hpoly _ hbits hodd hfeed

theorem block_detects_burst :
    ccitt16Block [0x31, 0x00, 0x00] ≠ ccitt16Block [0x31, 0x0f, 0xf0] ∧
      ccitt16Block [0x31, 0x00, 0x00] ≠ ccitt16Block [0xb1, 0x01, 0x01] :=
  ⟨block_detects _ _ rfl (by decide) (.inl ⟨12, by decide⟩),
    block_detects _ _ rfl (by decide) (.inr (by decide))⟩

end Aloof.C.Crc
