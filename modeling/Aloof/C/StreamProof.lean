import Aloof.C.Stream

namespace Aloof.C

open Framework

namespace Stream

/-- The bytes still to be read. -/
def rest (s : Stream) : List UInt8 := if s.readable then s.buf.drop s.pos.toNat else []

theorem rest_initRo {buf : List UInt8} (h : buf.length < 2^32) : (initRo buf h).rest = buf := by
  simp [rest, initRo]

/-- The bytes before the position. -/
def content (s : Stream) : List UInt8 := s.buf.take s.pos.toNat

/-- The number of bytes that can still be written. -/
def room (s : Stream) : Nat := if s.writable then s.buf.length - s.pos.toNat else 0

/-- Move forward, at most to the end. -/
def skip (s : Stream) (n : Nat) : Stream :=
  { s with
    pos := UInt32.ofNat (min (s.pos.toNat + n) s.buf.length)
    pos_le := by
      have hl := s.length_lt
      rw [UInt32.le_iff_toNat_le, UInt32.toNat_ofNat_of_lt' (by
        exact Nat.lt_of_le_of_lt (Nat.min_le_right _ _) hl), ← s.size_eq]
      exact Nat.min_le_right _ _ }

/-- Store bytes and move past them, at most to the end. -/
def append (s : Stream) (bs : List UInt8) : Stream :=
  { s.skip bs.length with
    buf := memcpy s.buf s.pos.toNat (bs.take (s.buf.length - s.pos.toNat))
    size_eq := by
      have hp := s.pos_le_length
      rw [length_memcpy _ _ _ (by rw [List.length_take]; omega)]
      exact s.size_eq }

theorem toNat_pos_skip {s : Stream} {n : Nat} (h : n ≤ s.buf.length - s.pos.toNat) :
    (s.skip n).pos.toNat = s.pos.toNat + n := by
  have hp := s.pos_le_length
  have hl := s.length_lt
  have hmin : min (s.pos.toNat + n) s.buf.length = s.pos.toNat + n := by omega
  simp only [skip, hmin]
  exact UInt32.toNat_ofNat_of_lt' (by change s.pos.toNat + n < 2^32; omega)

theorem length_rest_le (s : Stream) : s.rest.length ≤ s.buf.length - s.pos.toNat := by
  unfold rest
  split_ifs <;> simp

theorem rest_skip {s : Stream} {n : Nat} (h : n ≤ s.rest.length) :
    (s.skip n).rest = s.rest.drop n := by
  have hs := toNat_pos_skip (Nat.le_trans h s.length_rest_le)
  cases hr : s.readable
  · simp [rest, skip, hr]
  · simp only [rest, hs]
    simp [skip, hr, List.drop_drop]

@[simp] theorem skip_zero (s : Stream) : s.skip 0 = s := by
  have hp := s.pos_le_length
  ext1 <;> try rfl
  apply UInt32.toNat_inj.mp
  simpa using toNat_pos_skip (s := s) (n := 0) (by omega)

theorem skip_skip {s : Stream} {m n : Nat} (h : m + n ≤ s.rest.length) :
    (s.skip m).skip n = s.skip (m + n) := by
  have hr := s.length_rest_le
  have hm := toNat_pos_skip (s := s) (n := m) (by omega)
  have hn := toNat_pos_skip (s := s.skip m) (n := n) (by
    rw [hm]; change n ≤ s.buf.length - _; omega)
  ext1 <;> try rfl
  apply UInt32.toNat_inj.mp
  rw [hn, hm, toNat_pos_skip (by omega)]
  omega

/-- Only a stream that can be read has something left. -/
theorem readable_of_rest {s : Stream} (h : 0 < s.rest.length) : s.readable = true := by
  cases hr : s.readable with
  | true => rfl
  | false =>
    rw [rest, if_neg (by rw [hr]; exact Bool.false_ne_true)] at h
    exact absurd h (Nat.lt_irrefl 0)

theorem pos_skip {s : Stream} {size : UInt32} (h : size.toNat ≤ s.rest.length) :
    (s.skip size.toNat).pos = s.pos + size := by
  have hrest := s.length_rest_le
  have hend := s.pos_le_length
  have hlen := s.length_lt
  apply UInt32.toNat_inj.mp
  rw [toNat_pos_skip (by omega), UInt32.toNat_add]
  omega

theorem read_of_le {s : Stream} {size : UInt32} (hr : s.readable)
    (h : size.toNat ≤ s.rest.length) :
    s.read size = (some (s.rest.take size.toNat), s.skip size.toNat) := by
  have hrest : s.rest = s.buf.drop s.pos.toNat := by simp [rest, hr]
  have hlen : s.rest.length = s.buf.length - s.pos.toNat := by simp [hrest]
  have hle : s.max - s.pos ≥ size := by
    rw [ge_iff_le, UInt32.le_iff_toNat_le, toNat_max_sub_pos]
    omega
  rw [read, if_pos hr, dif_pos hle, hrest]
  congr 1
  ext1 <;> try rfl
  exact (pos_skip h).symm

theorem read_of_lt {s : Stream} {size : UInt32} (h : s.rest.length < size.toNat) :
    s.read size = (none, s) := by
  unfold read
  split_ifs with hr hle
  · exfalso
    rw [ge_iff_le, UInt32.le_iff_toNat_le, toNat_max_sub_pos] at hle
    simp only [rest, hr, if_true, List.length_drop] at h
    omega
  · rfl
  · rfl

theorem length_read_le {s t : Stream} {size : UInt32} {value : List UInt8}
    (h : s.read size = (some value, t)) : value.length ≤ size.toNat := by
  unfold read at h
  split_ifs at h
  · cases h
    exact List.length_take_le _ _
  · cases h
  · cases h

@[simp] theorem max_append (s : Stream) (bs : List UInt8) : (s.append bs).max = s.max := rfl

@[simp] theorem writable_append (s : Stream) (bs : List UInt8) :
    (s.append bs).writable = s.writable := rfl

@[simp] theorem length_buf_append (s : Stream) (bs : List UInt8) :
    (s.append bs).buf.length = s.buf.length := by
  rw [(s.append bs).size_eq, s.size_eq, max_append]

@[simp] theorem length_content (s : Stream) : s.content.length = s.pos.toNat := by
  rw [content, List.length_take, Nat.min_eq_left s.pos_le_length]

theorem room_le (s : Stream) : s.room ≤ s.buf.length - s.pos.toNat := by
  unfold room
  split_ifs <;> omega

theorem toNat_pos_append {s : Stream} {bs : List UInt8} (h : bs.length ≤ s.room) :
    (s.append bs).pos.toNat = s.pos.toNat + bs.length :=
  toNat_pos_skip (Nat.le_trans h s.room_le)

@[simp] theorem append_nil (s : Stream) : s.append [] = s := by
  have hp := s.pos_le_length
  ext1 <;> try rfl
  · simp [append, memcpy]
  · change (s.skip 0).pos = s.pos
    rw [skip_zero]

theorem content_append {s : Stream} {bs : List UInt8} (h : bs.length ≤ s.room) :
    (s.append bs).content = s.content ++ bs := by
  have hr := s.room_le
  have hbs : bs.take (s.buf.length - s.pos.toNat) = bs := List.take_of_length_le (by omega)
  rw [content, toNat_pos_append h]
  simp only [append, hbs]
  exact take_memcpy_end _ _ _ s.pos_le_length

theorem room_append {s : Stream} {bs : List UInt8} (h : bs.length ≤ s.room) :
    (s.append bs).room = s.room - bs.length := by
  cases hw : s.writable
  · simp [room, hw]
  · simp only [room, writable_append, hw, if_true, length_buf_append, toNat_pos_append h]
    omega

/-- Bytes before the position survive any further output. -/
theorem append_append {s : Stream} {xs ys : List UInt8} (h : xs.length + ys.length ≤ s.room) :
    (s.append xs).append ys = s.append (xs ++ ys) := by
  have hr := s.room_le
  have hp := s.pos_le_length
  have hx := toNat_pos_append (show xs.length ≤ s.room by omega)
  have hxs : xs.take (s.buf.length - s.pos.toNat) = xs := List.take_of_length_le (by omega)
  have hys : ys.take (s.buf.length - (s.pos.toNat + xs.length)) = ys :=
    List.take_of_length_le (by omega)
  have hxy : (xs ++ ys).take (s.buf.length - s.pos.toNat) = xs ++ ys :=
    List.take_of_length_le (by rw [List.length_append]; omega)
  have hroom : ys.length ≤ (s.append xs).room := by rw [room_append (by omega)]; omega
  ext1 <;> try rfl
  · change memcpy (s.append xs).buf _ (ys.take ((s.append xs).buf.length - _)) = memcpy _ _ _
    rw [length_buf_append, hx, hys, hxy]
    change memcpy (memcpy _ _ (xs.take _)) _ _ = _
    rw [hxs]
    exact memcpy_memcpy _ _ _ _ s.pos_le_length
  · apply UInt32.toNat_inj.mp
    rw [toNat_pos_append hroom, hx, toNat_pos_append (by rw [List.length_append]; omega),
      List.length_append, Nat.add_assoc]

/-- There is a buffer to write and n bytes of it are free. -/
def Fits (s : Stream) (n : Nat) : Prop := s.writable = true ∧ n ≤ s.room

instance (s : Stream) (n : Nat) : Decidable (s.Fits n) := inferInstanceAs (Decidable (_ ∧ _))

theorem fits_iff_le_room {s : Stream} {n : Nat} (h : 0 < n) : s.Fits n ↔ n ≤ s.room := by
  refine ⟨And.right, fun hn => ⟨?_, hn⟩⟩
  cases hw : s.writable
  · simp [room, hw] at hn; omega
  · rfl

theorem write_of_fits {s : Stream} {ptr : List UInt8} (h : s.Fits ptr.length) :
    s.write ptr = (true, s.append ptr) := by
  obtain ⟨hw, hn⟩ := h
  have hr : s.room = s.buf.length - s.pos.toNat := by simp [room, hw]
  have hle : (s.max - s.pos).toNat ≥ ptr.length := by rw [toNat_max_sub_pos]; omega
  have hptr : ptr.take (s.buf.length - s.pos.toNat) = ptr := List.take_of_length_le (by omega)
  rw [write, if_pos hw, dif_pos hle]
  congr 1
  ext1 <;> try rfl
  · exact congrArg (memcpy _ _) hptr.symm
  · apply UInt32.toNat_inj.mp
    have hs := s.length_lt
    have hp := s.pos_le_length
    rw [toNat_pos_append hn, UInt32.toNat_add,
      UInt32.toNat_ofNat_of_lt' (by change ptr.length < 2^32; omega)]
    omega

theorem write_of_not_fits {s : Stream} {ptr : List UInt8} (h : ¬ s.Fits ptr.length) :
    s.write ptr = (false, s) := by
  unfold write
  split_ifs with hw hle
  · exfalso
    apply h
    rw [ge_iff_le, toNat_max_sub_pos] at hle
    exact ⟨hw, by simpa [room, hw] using hle⟩
  · rfl
  · rfl

end Stream

end Aloof.C
