import Mathlib.Algebra.BigOperators.Intervals
import Mathlib.Algebra.Field.ZMod
import Mathlib.Algebra.CharP.Two
import Aloof.Framework.Feedback

namespace Aloof.Framework

section Differing

variable {α : Type} [DecidableEq α]

/-- The positions in which xs is not as ys. -/
def differing (xs ys : List α) : List Nat :=
  (List.range xs.length).filter fun k => xs[k]? ≠ ys[k]?

theorem getElem?_eq_of_not_differing {xs ys : List α} (hlen : xs.length = ys.length) {k : Nat}
    (h : k ∉ differing xs ys) : xs[k]? = ys[k]? := by
  rcases Nat.lt_or_ge k xs.length with hlt | hge
  · by_contra hne
    exact h (List.mem_filter.mpr ⟨List.mem_range.mpr hlt, decide_eq_true hne⟩)
  · rw [List.getElem?_eq_none hge, List.getElem?_eq_none (hlen ▸ hge)]

theorem mem_differing_append {before xs ys : List α} {k : Nat}
    (h : k ∈ differing (before ++ xs) (before ++ ys)) :
    before.length ≤ k ∧ k < before.length + xs.length := by
  obtain ⟨hrange, hne⟩ := List.mem_filter.mp h
  rw [List.mem_range, List.length_append] at hrange
  refine ⟨?_, hrange⟩
  by_contra hlt
  rw [not_le] at hlt
  rw [List.getElem?_append_left hlt, List.getElem?_append_left hlt] at hne
  exact of_decide_eq_true hne rfl

/-- A window holds all of the difference. -/
theorem exists_burst {xs ys : List α} (hlen : xs.length = ys.length) {start size : Nat}
    (hwindow : ∀ k ∈ differing xs ys, start ≤ k ∧ k < start + size) :
    ∃ before us vs after, xs = before ++ us ++ after ∧ ys = before ++ vs ++ after ∧
      us.length = vs.length ∧ us.length ≤ size := by
  have hsame : ∀ k, k < start ∨ start + size ≤ k → xs[k]? = ys[k]? := by
    intro k hk
    apply getElem?_eq_of_not_differing hlen
    intro hmem
    have := hwindow k hmem
    omega
  have hbefore : ys.take start = xs.take start := by
    apply List.ext_getElem?
    intro k
    rw [List.getElem?_take, List.getElem?_take]
    split
    · exact (hsame k (.inl ‹_›)).symm
    · rfl
  have hafter : (ys.drop start).drop size = (xs.drop start).drop size := by
    apply List.ext_getElem?
    intro k
    rw [List.drop_drop, List.drop_drop, List.getElem?_drop, List.getElem?_drop]
    exact (hsame _ (.inr (Nat.le_add_right _ _))).symm
  refine ⟨xs.take start, (xs.drop start).take size, (ys.drop start).take size,
    (xs.drop start).drop size, ?_, ?_, ?_, List.length_take_le _ _⟩
  · rw [List.append_assoc, List.take_append_drop, List.take_append_drop]
  · rw [← hbefore, ← hafter, List.append_assoc, List.take_append_drop, List.take_append_drop]
  · simp [hlen]

theorem differing_cons (x y : α) (xs ys : List α) :
    differing (x :: xs) (y :: ys) =
      (if x = y then [] else [0]) ++ (differing xs ys).map Nat.succ := by
  rw [differing, List.length_cons, List.range_succ_eq_map, List.filter_cons, List.filter_map]
  by_cases h : x = y
  · simp [h, differing, Function.comp_def]
  · simp [h, differing, Function.comp_def]

end Differing

/-- A list of all the bits there are. -/
theorem getElem?_range_map {bit : Nat → Bool} {n : Nat} (hout : ∀ i, n ≤ i → bit i = false)
    (i : Nat) : ((List.range n).map bit)[i]?.getD false = bit i := by
  rw [List.getElem?_map]
  rcases Nat.lt_or_ge i n with hlt | hge
  · rw [List.getElem?_range hlt, Option.map_some, Option.getD_some]
  · rw [List.getElem?_eq_none (by simpa using hge), hout i hge]
    rfl

theorem length_flatMap_word {α β : Type} {word : α → List β} {n : Nat}
    (hlength : ∀ a, (word a).length = n) (as : List α) :
    (as.flatMap word).length = n * as.length := by
  simp [List.length_flatMap, hlength, Nat.mul_comm]

/-- Words of one length can be read back. -/
theorem flatMap_injective {α β : Type} {word : α → List β} {n : Nat}
    (hlength : ∀ a, (word a).length = n + 1) (hword : Function.Injective word) :
    Function.Injective fun as : List α => as.flatMap word := by
  intro as bs h
  induction as generalizing bs with
  | nil =>
    cases bs with
    | nil => rfl
    | cons b bs =>
      have hempty := congrArg List.length h
      simp only [List.flatMap_nil, List.flatMap_cons, List.length_append, List.length_nil,
        hlength] at hempty
      omega
  | cons a as ih =>
    cases bs with
    | nil =>
      have hempty := congrArg List.length h
      simp only [List.flatMap_nil, List.flatMap_cons, List.length_append, List.length_nil,
        hlength] at hempty
      omega
    | cons b bs =>
      simp only [List.flatMap_cons] at h
      have hparts := List.append_inj h (by rw [hlength, hlength])
      rw [hword hparts.1, ih hparts.2]

namespace Feedback

variable {w : Nat}

def topBit (b : Bool) : BitVec w := if b then BitVec.twoPow w (w - 1) else 0

/-- Bits in the places that are lost first, in the order in which they are. -/
def top : List Bool → BitVec w
  | [] => 0
  | b :: bits => topBit b ^^^ (top bits >>> 1)

def bitIn (f : Feedback w) (r : BitVec w) (b : Bool) : BitVec w := f.step (r ^^^ topBit b)

def feed (f : Feedback w) (r : BitVec w) (bits : List Bool) : BitVec w := bits.foldl f.bitIn r

section Top

theorem getMsbD_topBit (b : Bool) (i : Nat) :
    (topBit b : BitVec w).getMsbD i = (decide (i = 0 ∧ 0 < w) && b) := by
  cases b with
  | false => simp [topBit]
  | true =>
    simp only [topBit, if_true, BitVec.getMsbD_twoPow, Bool.and_true, ← Bool.decide_and,
      decide_eq_decide]
    omega

theorem getMsbD_top (bits : List Bool) {i : Nat} (hi : i < w) :
    (top bits : BitVec w).getMsbD i = bits[i]?.getD false := by
  induction bits generalizing i with
  | nil => simp [top]
  | cons b bits ih =>
    rw [top, BitVec.getMsbD_xor, getMsbD_topBit, BitVec.getMsbD_ushiftRight]
    cases i with
    | zero => simp [hi]
    | succ i => simp [hi, ih (Nat.lt_of_succ_lt hi)]

theorem top_low {bits : List Bool} (hlen : bits.length < w) :
    (top bits : BitVec w).getLsbD 0 = false := by
  have hlast : (top bits : BitVec w).getLsbD 0 = (top bits : BitVec w).getMsbD (w - 1) := by
    rw [BitVec.getMsbD_eq_getLsbD]
    simp [show w - 1 < w by omega]
  rw [hlast, getMsbD_top bits (by omega), List.getElem?_eq_none (by omega), Option.getD_none]

theorem top_injective {bits bits' : List Bool} (hlen : bits.length = bits'.length)
    (hw : bits.length ≤ w) (h : (top bits : BitVec w) = top bits') : bits = bits' := by
  apply List.ext_getElem hlen
  intro i hi hi'
  have hbit := getMsbD_top (w := w) bits (i := i) (by omega)
  rw [h, getMsbD_top bits' (by omega)] at hbit
  simpa [hi, hi'] using hbit.symm

end Top

section Feed

variable (f : Feedback w)

/-- A step up undoes one down that lost nothing. -/
theorem step_shift {r : BitVec w} (hlow : r.getLsbD 0 = false) : f.step (r >>> 1) = r := by
  rw [step, BitVec.msb_ushiftRight]
  apply BitVec.eq_of_getLsbD_eq
  intro i hi
  cases i with
  | zero => simp [hlow]
  | succ i => simp [hi, Nat.add_comm 1 i]

theorem feed_append (r : BitVec w) (bits bits' : List Bool) :
    f.feed r (bits ++ bits') = f.feed (f.feed r bits) bits' := List.foldl_append

/-- As long as the bits fit, they may as well come in all at once. -/
theorem feed_eq_steps (r : BitVec w) {bits : List Bool} (hlen : bits.length ≤ w) :
    f.feed r bits = f.steps bits.length (r ^^^ top bits) := by
  induction bits generalizing r with
  | nil => simp [feed, steps, top]
  | cons b bits ih =>
    have hlow : (top bits : BitVec w).getLsbD 0 = false := top_low hlen
    calc f.feed r (b :: bits)
      _ = f.steps bits.length (f.bitIn r b ^^^ top bits) := ih (f.bitIn r b) (Nat.le_of_lt hlen)
      _ = f.steps bits.length (f.step (r ^^^ topBit b) ^^^ f.step (top bits >>> 1)) := by
        rw [f.step_shift hlow, bitIn]
      _ = f.steps (b :: bits).length (r ^^^ top (b :: bits)) := by
        rw [← f.step_xor, BitVec.xor_assoc]
        rfl

theorem feed_injective (bits : List Bool) : Function.Injective (fun r => f.feed r bits) := by
  induction bits with
  | nil => exact Function.injective_id
  | cons b bits ih =>
    intro r t h
    have hstep : r ^^^ topBit b = t ^^^ topBit b := f.step_injective (ih h)
    exact (BitVec.xor_left_inj _).mp hstep

theorem feed_ne {r : BitVec w} {bits bits' : List Bool} (hlen : bits.length = bits'.length)
    (hw : bits.length ≤ w) (hne : bits ≠ bits') : f.feed r bits ≠ f.feed r bits' := by
  intro h
  rw [feed_eq_steps f r hw, feed_eq_steps f r (hlen ▸ hw), hlen] at h
  have htop := f.steps_injective _ h
  exact hne (top_injective hlen hw ((BitVec.xor_right_inj _).mp htop))

/-- Bits that come in in words are the bits of the words in a row. -/
theorem foldl_eq_feed {σ α : Type} (view : σ → BitVec w) (update : σ → α → σ)
    (word : α → List Bool) (hupdate : ∀ s c, view (update s c) = f.feed (view s) (word c))
    (s : σ) (cs : List α) :
    view (cs.foldl update s) = f.feed (view s) (cs.flatMap word) := by
  induction cs generalizing s with
  | nil => rfl
  | cons c cs ih =>
    rw [List.foldl_cons, ih, hupdate, List.flatMap_cons, feed_append]

/-- Whatever stands before and behind, a burst of no more bits than the register has shows. -/
theorem feed_burst (r : BitVec w) (before after : List Bool) {bits bits' : List Bool}
    (hlen : bits.length = bits'.length) (hw : bits.length ≤ w) (hne : bits ≠ bits') :
    f.feed r (before ++ bits ++ after) ≠ f.feed r (before ++ bits' ++ after) := by
  intro h
  rw [feed_append, feed_append, feed_append f r (before ++ bits'), feed_append] at h
  exact f.feed_ne hlen hw hne (f.feed_injective after h)

end Feed

section Parity

/-- How many bits are set, as far as odd and even go. -/
def parity (r : BitVec w) : ZMod 2 := ∑ i ∈ Finset.range w, ((r.getLsbD i).toNat : ZMod 2)

theorem toNat_xor (a b : Bool) : ((a ^^ b).toNat : ZMod 2) = a.toNat + b.toNat := by
  cases a <;> cases b <;> decide

theorem parity_xor (r t : BitVec w) : parity (r ^^^ t) = parity r + parity t := by
  simp only [parity, BitVec.getLsbD_xor, toNat_xor, Finset.sum_add_distrib]

theorem parity_zero : parity (0 : BitVec w) = 0 := by
  simp [parity]

theorem parity_shiftLeft (r : BitVec w) :
    parity (r <<< 1) + (r.msb.toNat : ZMod 2) = parity r := by
  cases w with
  | zero => simp [parity, BitVec.msb_zero_length]
  | succ n =>
    have hup : ∀ i ∈ Finset.range n, ((r <<< 1).getLsbD (i + 1)) = r.getLsbD i := by
      intro i hi
      have hlt := Finset.mem_range.mp hi
      rw [BitVec.getLsbD_shiftLeft]
      simp [hlt]
    rw [parity, parity, Finset.sum_range_succ', Finset.sum_range_succ,
      BitVec.msb_eq_getLsbD_last, Finset.sum_congr rfl fun i hi => by rw [hup i hi]]
    simp

theorem parity_topBit (hw : 0 < w) (b : Bool) : parity (topBit b : BitVec w) = b.toNat := by
  cases b with
  | false => exact parity_zero
  | true =>
    have hone : ∀ i ∈ Finset.range w,
        (topBit true : BitVec w).getLsbD i = decide (i = w - 1) := by
      intro i hi
      have hlt := Finset.mem_range.mp hi
      simp only [topBit, if_true, BitVec.getLsbD_twoPow]
      grind
    rw [parity, Finset.sum_congr rfl fun i hi => by rw [hone i hi],
      Finset.sum_eq_single_of_mem (w - 1) (Finset.mem_range.mpr (by omega))]
    · simp
    · intro i _ hne
      simp [hne]

variable (f : Feedback w)

/-- An odd polynomial puts back the bit that is lost. -/
theorem parity_step (hodd : parity f.poly = 1) (r : BitVec w) : parity (f.step r) = parity r := by
  rw [step, parity_xor, ← parity_shiftLeft r]
  cases r.msb with
  | false => rw [if_neg Bool.false_ne_true, parity_zero, Bool.toNat_false, Nat.cast_zero]
  | true => rw [if_pos rfl, hodd, Bool.toNat_true, Nat.cast_one]

def parityOf (bits : List Bool) : ZMod 2 := (bits.map fun b => (b.toNat : ZMod 2)).sum

theorem parity_feed (hodd : parity f.poly = 1) (r : BitVec w) (bits : List Bool) :
    parity (f.feed r bits) = parity r + parityOf bits := by
  have hw : 0 < w := BitVec.lt_of_getLsbD f.constant
  induction bits generalizing r with
  | nil => simp [feed, parityOf]
  | cons b bits ih =>
    calc parity (f.feed r (b :: bits))
      _ = parity (f.bitIn r b) + parityOf bits := ih _
      _ = parity r + (b.toNat + parityOf bits) := by
        rw [bitIn, parity_step f hodd, parity_xor, parity_topBit hw, add_assoc]
      _ = parity r + parityOf (b :: bits) := by simp [parityOf]

/-- The difference is odd where one of the two is. -/
theorem length_differing {bits bits' : List Bool} (hlen : bits.length = bits'.length) :
    ((differing bits bits').length : ZMod 2) = parityOf bits + parityOf bits' := by
  induction bits generalizing bits' with
  | nil =>
    have hnil := List.eq_nil_of_length_eq_zero hlen.symm
    simp [hnil, differing, parityOf]
  | cons b bits ih =>
    cases bits' with
    | nil => simp at hlen
    | cons c bits' =>
      have hrest := ih (Nat.succ.inj hlen)
      have hhead : (((if b = c then [] else [0] : List Nat).length : Nat) : ZMod 2) =
          b.toNat + c.toNat := by
        cases b <;> cases c <;> decide
      rw [differing_cons, List.length_append, List.length_map, Nat.cast_add, hrest, hhead]
      exact add_add_add_comm _ _ _ _

/-- An odd polynomial shows every odd difference. -/
theorem feed_odd (hodd : parity f.poly = 1) (r : BitVec w) {bits bits' : List Bool}
    (hlen : bits.length = bits'.length) (h : Odd (differing bits bits').length) :
    f.feed r bits ≠ f.feed r bits' := by
  intro hfeed
  have hsum : parityOf bits = parityOf bits' := by
    have hparity := congrArg parity hfeed
    rw [parity_feed f hodd, parity_feed f hodd] at hparity
    exact add_left_cancel hparity
  have heven := length_differing hlen
  rw [hsum, CharTwo.add_self_eq_zero, ZMod.natCast_eq_zero_iff_even] at heven
  exact Nat.not_even_iff_odd.mpr h heven

end Parity

section Mirror

theorem reverse_xor (r t : BitVec w) : (r ^^^ t).reverse = r.reverse ^^^ t.reverse := by
  apply BitVec.eq_of_getLsbD_eq
  intro i _
  simp [BitVec.getLsbD_reverse]

/-- The register that shifts down. -/
def stepDown (f : Feedback w) (r : BitVec w) : BitVec w :=
  (r >>> 1) ^^^ (if r.getLsbD 0 then f.poly.reverse else 0)

theorem reverse_stepDown (f : Feedback w) (r : BitVec w) :
    (f.stepDown r).reverse = f.step r.reverse := by
  have hshift : (r >>> 1).reverse = r.reverse <<< 1 := by
    apply BitVec.eq_of_getMsbD_eq
    intro i hi
    rw [BitVec.getMsbD_reverse, BitVec.getMsbD_shiftLeft, BitVec.getMsbD_reverse,
      BitVec.getLsbD_ushiftRight, Nat.add_comm]
  rw [stepDown, step, reverse_xor, hshift, BitVec.msb_reverse]
  cases r.getLsbD 0 with
  | false =>
    have hzero : (0 : BitVec w).reverse = 0 := BitVec.reverse_eq_zero_iff.mpr rfl
    rw [if_neg Bool.false_ne_true, if_neg Bool.false_ne_true, hzero]
  | true => simp [BitVec.reverse_reverse_eq]

end Mirror

end Feedback

end Aloof.Framework
