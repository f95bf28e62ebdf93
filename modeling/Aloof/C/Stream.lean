import Mathlib.Algebra.Group.Nat.Defs
import Aloof.Framework.Decoder

namespace Aloof.C

open Framework

/-- struct aloof_stream. Both initialisers point `in` and `out` at one buffer or leave a pointer
NULL, so the model keeps one buffer and the two flags. -/
@[ext] structure Stream where
  buf : List UInt8
  readable : Bool
  writable : Bool
  max : UInt32
  pos : UInt32
  size_eq : buf.length = max.toNat
  pos_le : pos ≤ max

namespace Stream

def initRo (buf : List UInt8) (h : buf.length < 2^32) : Stream where
  buf := buf
  readable := true
  writable := false
  max := UInt32.ofNat buf.length
  pos := 0
  size_eq := by rw [UInt32.toNat_ofNat_of_lt' h]
  pos_le := UInt32.le_iff_toNat_le.mpr (Nat.zero_le _)

def init (buf : List UInt8) (h : buf.length < 2^32) : Stream :=
  { initRo buf h with writable := true }

theorem pos_le_length (s : Stream) : s.pos.toNat ≤ s.buf.length := by
  rw [s.size_eq]
  exact UInt32.le_iff_toNat_le.mp s.pos_le

theorem length_lt (s : Stream) : s.buf.length < 2^32 := by
  rw [s.size_eq]
  exact s.max.toNat_lt

theorem toNat_max_sub_pos (s : Stream) : (s.max - s.pos).toNat = s.buf.length - s.pos.toNat := by
  rw [UInt32.toNat_sub_of_le _ _ s.pos_le, s.size_eq]

/-- memcpy into a buffer at an offset. -/
def memcpy (buf : List UInt8) (at_ : Nat) (ptr : List UInt8) : List UInt8 :=
  buf.take at_ ++ ptr ++ buf.drop (at_ + ptr.length)

theorem length_memcpy (buf ptr : List UInt8) (n : Nat) (h : n + ptr.length ≤ buf.length) :
    (memcpy buf n ptr).length = buf.length := by
  simp only [memcpy, List.length_append, List.length_take, List.length_drop]
  omega

theorem take_memcpy_end (buf ptr : List UInt8) (n : Nat) (h : n ≤ buf.length) :
    (memcpy buf n ptr).take (n + ptr.length) = buf.take n ++ ptr := by
  rw [memcpy]
  apply List.take_left'
  simp [h]

theorem memcpy_memcpy (buf xs ys : List UInt8) (n : Nat) (h : n ≤ buf.length) :
    memcpy (memcpy buf n xs) (n + xs.length) ys = memcpy buf n (xs ++ ys) := by
  have hfront : (buf.take n ++ xs).length = n + xs.length := by simp [h]
  have hdrop : (memcpy buf n xs).drop (n + xs.length + ys.length) =
      buf.drop (n + (xs ++ ys).length) := by
    rw [memcpy, ← hfront, List.drop_append, List.drop_of_length_le (by omega), List.nil_append,
      List.drop_drop, hfront, List.length_append]
    congr 1
    omega
  rw [memcpy, take_memcpy_end buf xs n h, hdrop, memcpy, List.append_assoc (buf.take n)]

theorem advance_le {s : Stream} {size : UInt32} (h : s.max - s.pos ≥ size) :
    s.pos + size ≤ s.max := by
  have hs := UInt32.le_iff_toNat_le.mp h
  have hp := s.pos_le_length
  have hm := s.max.toNat_lt
  rw [toNat_max_sub_pos, s.size_eq] at hs
  rw [s.size_eq] at hp
  rw [UInt32.le_iff_toNat_le, UInt32.toNat_add]
  omega

/-- The size argument is the length of what ptr points at. -/
def write (self : Stream) (ptr : List UInt8) : Bool × Stream :=
  if self.writable then
    if h : (self.max - self.pos).toNat ≥ ptr.length then
      (true, { self with
        buf := memcpy self.buf self.pos.toNat ptr
        pos := self.pos + UInt32.ofNat ptr.length
        size_eq := by
          rw [toNat_max_sub_pos] at h
          rw [length_memcpy _ _ _ (by have := self.pos_le_length; omega), self.size_eq]
        pos_le := by
          apply advance_le
          have hp := (self.max - self.pos).toNat_lt
          rw [ge_iff_le, UInt32.le_iff_toNat_le,
            UInt32.toNat_ofNat_of_lt' (Nat.lt_of_le_of_lt h hp)]
          exact h })
    else (false, self)
  else (false, self)

/-- On success the bytes that memcpy stores at the destination; on failure it is not touched. -/
def read (self : Stream) (size : UInt32) : Option (List UInt8) × Stream :=
  if self.readable then
    if h : self.max - self.pos ≥ size then
      (some ((self.buf.drop self.pos.toNat).take size.toNat),
        { self with pos := self.pos + size, pos_le := advance_le h })
    else (none, self)
  else (none, self)

def tell (self : Stream) : UInt32 := self.pos

def seekSet (self : Stream) (offset : UInt32) : Bool × Stream :=
  if h : self.max ≥ offset then (true, { self with pos := offset, pos_le := h })
  else (false, self)

/-- The function moves *pos, which stays as it is where it returns false. -/
def adjustOffset (pos max : UInt32) (offset : Int32) : Bool × UInt32 :=
  if offset > 0 then
    if pos + offset.toUInt32 > pos ∧ pos + offset.toUInt32 ≤ max then (true, pos + offset.toUInt32)
    else (false, pos)
  else if offset < 0 then
    if pos + offset.toUInt32 < pos then (true, pos + offset.toUInt32) else (false, pos)
  else (true, pos)

theorem adjustOffset_le {pos max : UInt32} (h : pos ≤ max) (offset : Int32) :
    (adjustOffset pos max offset).2 ≤ max := by
  unfold adjustOffset
  split_ifs with _ hup _ hdown
  · exact hup.2
  · exact h
  · exact UInt32.le_trans (UInt32.le_of_lt hdown) h
  · exact h
  · exact h

def seekCur (self : Stream) (offset : Int32) : Bool × Stream :=
  ((adjustOffset self.pos self.max offset).1,
    { self with
      pos := (adjustOffset self.pos self.max offset).2
      pos_le := adjustOffset_le self.pos_le offset })

end Stream

/-- `bool f(struct aloof_stream *, T *out)`: `none` is a return of false, with *out not written. -/
def Getter (α : Type) := Stream → Option α × Stream

namespace Getter

/-- Nested ifs: the first read that fails ends the function. -/
instance : Monad Getter where
  pure a := fun s => (some a, s)
  bind g f := fun s =>
    match g s with
    | (some a, s) => f a s
    | (none, s) => (none, s)

instance : LawfulMonad Getter :=
  LawfulMonad.mk' Getter
    (by
      intro α g
      funext s
      change (match g s with | (some a, s) => (some (id a), s) | (none, s) => (none, s)) = g s
      rcases g s with ⟨_ | a, s⟩ <;> rfl)
    (fun _ _ => rfl)
    (by
      intro α β γ g f k
      funext s
      simp only [Bind.bind]
      rcases g s with ⟨_ | a, s⟩ <;> rfl)

def fail {α : Type} : Getter α := fun s => (none, s)

/-- aloof_stream_read into a local buffer. -/
def read (size : UInt32) : Getter (List UInt8) := fun s => s.read size

end Getter

/-- `bool f(struct aloof_stream *)` for output. -/
def Putter := Stream → Bool × Stream

/-- The operator &&. -/
def Putter.andThen (p q : Putter) : Putter := fun s =>
  match p s with
  | (true, s) => q s
  | (false, s) => (false, s)

end Aloof.C
