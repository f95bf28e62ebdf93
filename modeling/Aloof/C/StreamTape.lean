import Aloof.C.StreamProof
import Aloof.Framework.Tape
import Aloof.Framework.Transition
import Aloof.Wire.Datum

namespace Aloof.C.Stream

open Framework

inductive Call where
  | write (ptr : Bytes)
  | read (size : UInt32)
  | seekSet (offset : UInt32)
  | seekCur (offset : Int32)

/-- The answer of a function that stores no bytes. -/
def said (r : Bool × Stream) : Option (List UInt8) × Stream := (if r.1 then some [] else none, r.2)

def call (s : Stream) : Call → Option (List UInt8) × Stream
  | .write ptr => said (s.write ptr.data)
  | .read size => s.read size
  | .seekSet offset => said (s.seekSet offset)
  | .seekCur offset => said (s.seekCur offset)

/-- The call in unbounded numbers. -/
def Call.plain : Call → Tape.Call UInt8
  | .write ptr => .write ptr.data
  | .read size => .read size.toNat
  | .seekSet offset => .seekSet offset.toNat
  | .seekCur offset => .seekCur offset.toInt

def tape (s : Stream) : Tape UInt8 := ⟨s.buf, s.readable, s.writable, s.pos.toNat⟩

variable (s : Stream)

theorem write_tape (ptr : List UInt8) :
    s.tape.call (.write ptr) = ((said (s.write ptr)).1, (said (s.write ptr)).2.tape) := by
  have hpos := s.pos_le_length
  have hroom := s.room_le
  have hallowed : s.tape.Allowed (.write ptr) ↔ s.Fits ptr.length := by
    unfold Tape.Allowed Fits room
    simp only [Tape.hasSide, Tape.target, tape]
    constructor
    · intro h
      rw [if_pos h.1]
      exact ⟨h.1, by omega⟩
    · intro h
      rw [if_pos h.1] at h
      exact ⟨h.1, by omega, by omega⟩
  by_cases h : s.Fits ptr.length
  · have hle := h.2
    have hptr : ptr.take (s.buf.length - s.pos.toNat) = ptr := List.take_of_length_le (by omega)
    rw [Tape.call_of_allowed (hallowed.mpr h), write_of_fits h]
    refine congrArg (Prod.mk (some [])) (Tape.ext ?_ rfl rfl ?_)
    · change (s.buf.take s.pos.toNat).drop 0 ++ ptr ++
        (s.buf.take s.buf.length).drop ((s.pos.toNat : Int) + ptr.length).toNat =
        memcpy s.buf s.pos.toNat (ptr.take (s.buf.length - s.pos.toNat))
      rw [hptr, List.drop_zero, List.take_length, memcpy]
      congr 2
    · change (s.pos.toNat : Int) + ptr.length = (s.append ptr).pos.toNat
      rw [toNat_pos_append hle]
      omega
  · rw [Tape.call_of_not_allowed (fun ha => h (hallowed.mp ha)), write_of_not_fits h]
    rfl

theorem read_tape (size : UInt32) :
    s.tape.call (.read size.toNat) = ((s.read size).1, (s.read size).2.tape) := by
  have hpos := s.pos_le_length
  by_cases hr : s.readable = true
  · have hrest : s.rest = s.buf.drop s.pos.toNat := if_pos hr
    have hlen : s.rest.length = s.buf.length - s.pos.toNat := by rw [hrest, List.length_drop]
    have hallowed : s.tape.Allowed (.read size.toNat) ↔ size.toNat ≤ s.rest.length := by
      unfold Tape.Allowed
      simp only [Tape.hasSide, Tape.target, tape, hr, true_and]
      omega
    by_cases h : size.toNat ≤ s.rest.length
    · rw [Tape.call_of_allowed (hallowed.mpr h), read_of_le hr h]
      refine Prod.ext (congrArg some ?_) (Tape.ext rfl rfl rfl ?_)
      · change (s.buf.take ((s.pos.toNat : Int) + size.toNat).toNat).drop s.pos.toNat = _
        rw [hrest, ← Int.natCast_add, Int.toNat_natCast, List.drop_take, Nat.add_sub_cancel_left]
      · change (s.pos.toNat : Int) + size.toNat = (s.skip size.toNat).pos.toNat
        rw [toNat_pos_skip (by omega)]
        omega
    · rw [Tape.call_of_not_allowed (fun ha => h (hallowed.mp ha)), read_of_lt (by omega)]
  · have hnot : ¬ s.tape.Allowed (.read size.toNat) := fun ha => hr ha.1
    rw [Tape.call_of_not_allowed hnot, read, if_neg hr]

theorem seekSet_tape (offset : UInt32) : s.tape.call (.seekSet offset.toNat) =
    ((said (s.seekSet offset)).1, (said (s.seekSet offset)).2.tape) := by
  have hallowed : s.tape.Allowed (.seekSet offset.toNat) ↔ s.max ≥ offset := by
    unfold Tape.Allowed
    simp only [Tape.hasSide, Tape.target, tape, true_and]
    rw [ge_iff_le, UInt32.le_iff_toNat_le, s.size_eq]
    omega
  by_cases h : s.max ≥ offset
  · rw [Tape.call_of_allowed (hallowed.mpr h), seekSet, dif_pos h]
    rfl
  · rw [Tape.call_of_not_allowed (fun ha => h (hallowed.mp ha)), seekSet, dif_neg h]
    rfl

/-- The cast makes of an offset below 0 its complement to 2^32, and the sum then wraps exactly when
the position does not fall below 0. -/
theorem adjustOffset_spec {pos max : UInt32} (h : pos ≤ max) (offset : Int32) :
    if 0 ≤ (pos.toNat : Int) + offset.toInt ∧ (pos.toNat : Int) + offset.toInt ≤ max.toNat then
      (adjustOffset pos max offset).1 = true ∧
        ((adjustOffset pos max offset).2.toNat : Int) = pos.toNat + offset.toInt
    else adjustOffset pos max offset = (false, pos) := by
  have hle := UInt32.le_iff_toNat_le.mp h
  have hmax := max.toNat_lt
  have hcast : offset.toInt = if 2 * offset.toUInt32.toNat < 2^32 then
      (offset.toUInt32.toNat : Int) else (offset.toUInt32.toNat : Int) - 2^32 :=
    BitVec.toInt_eq_toNat_cond offset.toBitVec
  have hlt := offset.toUInt32.toNat_lt
  have hsum := UInt32.toNat_add pos offset.toUInt32
  have hpos : offset > 0 ↔ 0 < offset.toInt := Int32.lt_iff_toInt_lt
  have hneg : offset < 0 ↔ offset.toInt < 0 := Int32.lt_iff_toInt_lt
  have hrun : adjustOffset pos max offset =
      if 0 < offset.toInt then
        if pos.toNat < (pos + offset.toUInt32).toNat ∧
            (pos + offset.toUInt32).toNat ≤ max.toNat then (true, pos + offset.toUInt32)
        else (false, pos)
      else if offset.toInt < 0 then
        if (pos + offset.toUInt32).toNat < pos.toNat then (true, pos + offset.toUInt32)
        else (false, pos)
      else (true, pos) := by
    simp only [adjustOffset, hpos, hneg, gt_iff_lt, UInt32.lt_iff_toNat_lt, UInt32.le_iff_toNat_le]
  rcases Int.lt_trichotomy 0 offset.toInt with hsign | hzero | hsign
  · rw [if_pos (by omega)] at hcast
    rw [if_pos hsign] at hrun
    by_cases hc : pos.toNat < (pos + offset.toUInt32).toNat ∧
        (pos + offset.toUInt32).toNat ≤ max.toNat
    · rw [hrun, if_pos hc, if_pos (by omega)]
      exact ⟨rfl, by dsimp only; omega⟩
    · rw [hrun, if_neg hc, if_neg (by omega)]
  · rw [if_neg (by omega), if_neg (by omega)] at hrun
    rw [hrun, if_pos (by omega)]
    exact ⟨rfl, by dsimp only; omega⟩
  · rw [if_neg (by omega)] at hcast
    rw [if_neg (by omega), if_pos hsign] at hrun
    by_cases hc : (pos + offset.toUInt32).toNat < pos.toNat
    · rw [hrun, if_pos hc, if_pos (by omega)]
      exact ⟨rfl, by dsimp only; omega⟩
    · rw [hrun, if_neg hc, if_neg (by omega)]

theorem seekCur_tape (offset : Int32) : s.tape.call (.seekCur offset.toInt) =
    ((said (s.seekCur offset)).1, (said (s.seekCur offset)).2.tape) := by
  have hspec := adjustOffset_spec s.pos_le offset
  have hallowed : s.tape.Allowed (.seekCur offset.toInt) ↔
      0 ≤ (s.pos.toNat : Int) + offset.toInt ∧
        (s.pos.toNat : Int) + offset.toInt ≤ s.max.toNat := by
    unfold Tape.Allowed
    simp only [Tape.hasSide, Tape.target, tape, true_and, s.size_eq]
  by_cases h : s.tape.Allowed (.seekCur offset.toInt)
  · rw [if_pos (hallowed.mp h)] at hspec
    rw [Tape.call_of_allowed h, said, seekCur, if_pos hspec.1]
    exact congrArg (Prod.mk (some [])) (Tape.ext rfl rfl rfl hspec.2.symm)
  · rw [if_neg (mt hallowed.mpr h)] at hspec
    have hstay : s.seekCur offset = (false, s) := by
      have hok : (adjustOffset s.pos s.max offset).1 = false := congrArg Prod.fst hspec
      have hpos : (adjustOffset s.pos s.max offset).2 = s.pos := congrArg Prod.snd hspec
      exact Prod.ext hok (Stream.ext rfl rfl rfl rfl hpos)
    rw [Tape.call_of_not_allowed h, hstay]
    rfl

theorem call_tape (c : Call) : s.tape.call c.plain = ((s.call c).1, (s.call c).2.tape) := by
  cases c with
  | write ptr => exact s.write_tape ptr.data
  | read size => exact s.read_tape size
  | seekSet offset => exact s.seekSet_tape offset
  | seekCur offset => exact s.seekCur_tape offset

/-- Whatever is called one after the other, the stream answers as the tape does and holds what the
tape holds, with its position between 0 and the size of the buffer. -/
def Refines (s : Stream) (t : Tape UInt8) : Prop := ∀ calls : List Call,
  (answers call s calls).1 = (answers Tape.call t (calls.map Call.plain)).1 ∧
  (answers call s calls).2.tape = (answers Tape.call t (calls.map Call.plain)).2 ∧
  0 ≤ (answers call s calls).2.tape.pos ∧ (answers call s calls).2.tape.pos ≤ s.max.toNat

theorem refines_tape : s.Refines s.tape := by
  intro calls
  have hinside : s.tape.Inside := ⟨Int.natCast_nonneg _, Int.ofNat_le.mpr s.pos_le_length⟩
  have hrun := answers_map tape Call.plain call_tape s calls
  have hkept : (answers call s calls).2.tape.Inside ∧
      (answers call s calls).2.tape.cells.length = s.max.toNat := by
    apply answers_keep (P := fun t : Stream => t.tape.Inside ∧ t.tape.cells.length = s.max.toNat)
    · intro t c ht
      have hnext := Tape.call_inside ht.1 c.plain
      rw [t.call_tape c] at hnext
      exact ⟨hnext.1, hnext.2.trans ht.2⟩
    · exact ⟨hinside, s.size_eq⟩
  rw [hrun]
  refine ⟨rfl, rfl, hkept.1.1, ?_⟩
  rw [← hkept.2]
  exact hkept.1.2

/-- A stream on a buffer of any size is a tape with the buffer's bytes in its cells. -/
theorem init_refines (buf : List UInt8) (h : buf.length < 2^32) :
    (init buf h).Refines ⟨buf, true, true, 0⟩ ∧ (initRo buf h).Refines ⟨buf, true, false, 0⟩ :=
  ⟨refines_tape (init buf h), refines_tape (initRo buf h)⟩

theorem init_refines_four :
    (init [1, 2, 3, 4] (by decide)).Refines ⟨[1, 2, 3, 4], true, true, 0⟩ ∧
    (initRo [1, 2, 3, 4] (by decide)).Refines ⟨[1, 2, 3, 4], true, false, 0⟩ :=
  init_refines [1, 2, 3, 4] (by decide)

end Aloof.C.Stream
