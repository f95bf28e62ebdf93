import Aloof.C.DataProof

namespace Aloof.C.Data

/-- One call of aloof_data_get_string after the other. -/
def getStrings (d : DataRx) (s : Stream) : List UInt32 → List Chunk
  | [] => []
  | max :: maxes =>
    let chunk := getString d s max
    chunk :: getStrings chunk.self chunk.s maxes

/-- The returned chunks are the string, piece after piece, and nothing once it is all there. -/
structure InOrder (size : UInt32) (d : DataRx) (s : Stream) (maxes : List UInt32) : Prop where
  bytes : ∀ part, part <+: maxes → (getStrings d s part).flatMap Chunk.value =
    s.rest.take (min size.toNat (part.map UInt32.toNat).sum)
  done : ∀ chunks chunk, chunks ++ [chunk] <+: getStrings d s maxes →
    size.toNat ≤ (chunks.flatMap Chunk.value).length → chunk.retval = 0

/-- Whether a call returns what is due when got of the size bytes have been returned. Following is
the number of bytes behind the string and start the offset of the string. -/
def Due (size following start got max : Nat) : Prop :=
  max = 0 ∨ size = 0 ∨ got = 0 ∨
  (got < size ∧ got + max ≤ size ∧ start + got + size < 2^32) ∨
  (got = size ∧ (following < min size max ∨ 2^32 ≤ start + got + size))

instance (size following start got max : Nat) : Decidable (Due size following start got max) :=
  inferInstanceAs (Decidable (_ ∨ _ ∨ _ ∨ _ ∨ _))

/-- Every call of the sequence, when those before it have returned what was due. -/
def AllDue (size following start : Nat) : Nat → List UInt32 → Prop
  | _, [] => True
  | got, max :: maxes => Due size following start got max.toNat ∧
      AllDue size following start (min size (got + max.toNat)) maxes

variable {size : UInt32} {d : DataRx} {s : Stream}

/-- The stream with the string at its front, and got of its bytes returned. -/
structure Underway (size : UInt32) (s : Stream) (got : Nat) (d : DataRx) (t : Stream) : Prop where
  level : Level size d t
  whole : size.toNat ≤ s.rest.length
  stream : t = s.skip got
  got_le : got ≤ size.toNat

theorem Underway.returned_iff {got : Nat} {t : Stream} (h : Underway size s got d t)
    (max : UInt32) :
    returned size t max = min (size.toNat - got) max.toNat ↔
      Due size.toNat (s.rest.length - size.toNat) s.pos.toNat got max.toNat := by
  have hwhole := h.whole
  have hgot := h.got_le
  have hrest := s.length_rest_le
  have hend := s.pos_le_length
  have hlen := s.length_lt
  have htpos : t.pos.toNat = s.pos.toNat + got := by
    rw [h.stream, Stream.toNat_pos_skip (by omega)]
  have htrest : t.rest.length = s.rest.length - got := by
    rw [h.stream, Stream.rest_skip (by omega), List.length_drop]
  unfold returned Due
  rw [htpos, htrest]
  split_ifs with hc
  · omega
  · omega

/-- A call that returns what is due moves on by as much. -/
theorem Underway.next {got : Nat} {t : Stream} (h : Underway size s got d t) {max : UInt32}
    (hn : returned size t max = min (size.toNat - got) max.toNat) :
    (getString d t max).value = (s.rest.drop got).take (min (size.toNat - got) max.toNat) ∧
    Underway size s (min size.toNat (got + max.toNat)) (getString d t max).self
      (getString d t max).s := by
  have hwhole := h.whole
  have hgot := h.got_le
  have hgot' : min size.toNat (got + max.toNat) = got + min (size.toNat - got) max.toNat := by
    omega
  obtain ⟨-, hvalue, hs, hlevel⟩ := getString_spec h.level max
  have htrest : t.rest = s.rest.drop got := by rw [h.stream, Stream.rest_skip (by omega)]
  rw [hn] at hvalue hs
  refine ⟨by rw [hvalue, htrest], hlevel, hwhole, ?_, Nat.min_le_left _ _⟩
  rw [hs, h.stream, hgot', Stream.skip_skip (by omega)]

/-- The piece of a call and the pieces of the calls after it make one piece. -/
theorem take_pieces {bs : List UInt8} {size got : Nat} (h : got ≤ size) (max more : Nat) :
    (bs.drop got).take (min (size - got) (max + more)) =
      (bs.drop got).take (min (size - got) max) ++
      (bs.drop (min size (got + max))).take (min (size - min size (got + max)) more) := by
  have hsum : min (size - got) (max + more) =
      min (size - got) max + min (size - min size (got + max)) more := by omega
  have hnext : min size (got + max) = got + min (size - got) max := by omega
  rw [hsum, List.take_add, List.drop_drop, hnext]

theorem Underway.bytes_iff {got : Nat} {t : Stream} (h : Underway size s got d t)
    (maxes : List UInt32) :
    (∀ part, part <+: maxes → (getStrings d t part).flatMap Chunk.value =
      (s.rest.drop got).take (min (size.toNat - got) (part.map UInt32.toNat).sum)) ↔
    AllDue size.toNat (s.rest.length - size.toNat) s.pos.toNat got maxes := by
  induction maxes generalizing got d t with
  | nil =>
    refine iff_of_true ?_ trivial
    intro part hpart
    rw [List.prefix_nil.mp hpart]
    simp [getStrings]
  | cons max maxes ih =>
    have hwhole := h.whole
    have hgot := h.got_le
    constructor
    · intro hall
      have hn : returned size t max = min (size.toNat - got) max.toNat := by
        have hfirst := congrArg List.length (hall [max] (List.prefix_append [max] maxes))
        obtain ⟨-, hvalue, -, -⟩ := getString_spec h.level max
        have hle := returned_le size t max
        simp only [getStrings, List.flatMap_cons, List.flatMap_nil, List.append_nil, hvalue,
          List.length_take, List.length_drop, List.map_cons, List.map_nil, List.sum_cons,
          List.sum_nil] at hfirst
        omega
      obtain ⟨hvalue, hnext⟩ := h.next hn
      refine ⟨(h.returned_iff max).mp hn, (ih hnext).mp ?_⟩
      intro part hpart
      have hmore := hall (max :: part) (List.cons_prefix_cons.mpr ⟨rfl, hpart⟩)
      rw [getStrings, List.flatMap_cons, List.map_cons, List.sum_cons, take_pieces hgot,
        hvalue] at hmore
      exact List.append_cancel_left hmore
    · intro hall part hpart
      obtain ⟨hdue, hrest⟩ := hall
      obtain ⟨hvalue, hnext⟩ := h.next ((h.returned_iff max).mpr hdue)
      cases part with
      | nil => simp [getStrings]
      | cons m part =>
        obtain ⟨rfl, htail⟩ := List.cons_prefix_cons.mp hpart
        rw [getStrings, List.flatMap_cons, List.map_cons, List.sum_cons, take_pieces hgot, hvalue]
        congr 1
        exact (ih hnext).mpr hrest part htail

theorem getStrings_take (d : DataRx) (s : Stream) (maxes : List UInt32) (n : Nat) :
    (getStrings d s maxes).take n = getStrings d s (maxes.take n) := by
  induction maxes generalizing d s n with
  | nil => simp [getStrings]
  | cons max maxes ih =>
    cases n with
    | zero => rfl
    | succ n => rw [getStrings, List.take_succ_cons, ih, List.take_succ_cons, getStrings]

theorem getStrings_length {d : DataRx} {s : Stream} (h : Level size d s) (maxes : List UInt32) :
    ∀ chunk ∈ getStrings d s maxes, chunk.retval.toNat = chunk.value.length := by
  induction maxes generalizing d s with
  | nil =>
    intro chunk hmem
    cases hmem
  | cons max maxes ih =>
    obtain ⟨hretval, hvalue, -, hlevel⟩ := getString_spec h max
    intro chunk hmem
    rcases List.mem_cons.mp hmem with rfl | hmem
    · rw [hretval, hvalue, List.length_take, Nat.min_eq_left (returned_le size s max)]
    · exact ih hlevel chunk hmem

/-- When no byte behind the end comes, a call after the last byte has none to return. -/
theorem inOrder_of_bytes (h : Level size d s) (maxes : List UInt32)
    (hbytes : ∀ part, part <+: maxes → (getStrings d s part).flatMap Chunk.value =
      s.rest.take (min size.toNat (part.map UInt32.toNat).sum)) : InOrder size d s maxes := by
  refine ⟨hbytes, ?_⟩
  intro chunks chunk hprefix hall
  have hmem : chunk ∈ getStrings d s maxes :=
    hprefix.subset (List.mem_append_right _ (List.mem_singleton_self _))
  have htake : chunks ++ [chunk] = getStrings d s (maxes.take (chunks ++ [chunk]).length) := by
    rw [← getStrings_take]
    exact List.prefix_iff_eq_take.mp hprefix
  have hlength := congrArg List.length
    (hbytes _ (List.take_prefix (chunks ++ [chunk]).length maxes))
  rw [← htake, List.flatMap_append, List.flatMap_singleton, List.length_append,
    List.length_take] at hlength
  apply UInt32.toNat_inj.mp
  rw [getStrings_length h maxes chunk hmem]
  change chunk.value.length = 0
  omega

/-- Calls that go on after the first piece are answered rightly only as long as they ask for no
more than what is left, and after the last byte only when the input is too short for more. -/
theorem string_inOrder {scratch : UInt8} {inp s : Stream} {d : DataRx} {w : StringRx}
    (hget : get scratch inp = (some d, s)) (hw : d.string? = some w)
    (hall : w.size.toNat ≤ s.rest.length) (maxes : List UInt32) :
    InOrder w.size d s maxes ↔
      AllDue w.size.toNat (s.rest.length - w.size.toNat) s.pos.toNat 0 maxes := by
  have hlevel : Level w.size d s :=
    ⟨by rw [hw, ← get_start hget hw], fun hpos => Stream.readable_of_rest (by omega)⟩
  have hstart : Underway w.size s 0 d s := ⟨hlevel, hall, s.skip_zero.symm, Nat.zero_le _⟩
  rw [← hstart.bytes_iff maxes]
  exact ⟨InOrder.bytes, inOrder_of_bytes hlevel maxes⟩

/-- A string of three bytes with two more behind it. -/
def letters : Stream := Stream.initRo [12, 3, 97, 98, 99, 88, 89] (by decide)

theorem letters_get : get 0 letters = (some (.string ⟨3, 2⟩), (get 0 letters).2) :=
  Prod.ext (by decide) rfl

theorem string_inOrder_letters : InOrder 3 (.string ⟨3, 2⟩) (get 0 letters).2 [1, 2] := by
  apply (string_inOrder letters_get rfl (by decide) [1, 2]).mpr
  change AllDue 3 2 2 0 [1, 2]
  simp [AllDue, Due]

/-- The second call returns the last byte of the string and the first one after it. -/
theorem string_inOrder_past : (get 0 letters).1 = some (.string ⟨3, 2⟩) ∧
    (get 0 letters).2.rest = [97, 98, 99, 88, 89] ∧
    ¬ InOrder 3 (.string ⟨3, 2⟩) (get 0 letters).2 [2, 2] := by
  refine ⟨by decide, by decide, fun h => ?_⟩
  have hbytes := h.bytes [2, 2] (List.prefix_refl _)
  exact absurd hbytes (by decide)

end Aloof.C.Data
