import Aloof.C.OerProof

namespace Aloof.C

open Framework

namespace Stream

/-- The stream after output, back at the position where the output began. -/
def reread (s : Stream) (bs : List UInt8) : Stream := ((s.append bs).seekSet s.pos).2

theorem pos_reread (s : Stream) (bs : List UInt8) : (s.reread bs).pos = s.pos := by
  have hle : (s.append bs).max ≥ s.pos := s.pos_le
  rw [reread, seekSet, dif_pos hle]

theorem readable_reread (s : Stream) (bs : List UInt8) :
    (s.reread bs).readable = s.readable := by
  have hle : (s.append bs).max ≥ s.pos := s.pos_le
  rw [reread, seekSet, dif_pos hle]
  rfl

theorem rest_reread {s : Stream} {bs : List UInt8} (hr : s.readable) (h : bs.length ≤ s.room) :
    (s.reread bs).rest = bs ++ s.buf.drop (s.pos.toNat + bs.length) := by
  have hroom := s.room_le
  have hle : (s.append bs).max ≥ s.pos := s.pos_le
  have hbs : bs.take (s.buf.length - s.pos.toNat) = bs := List.take_of_length_le (by omega)
  have hfront : (s.buf.take s.pos.toNat).length = s.pos.toNat := s.length_content
  have hreadable : (s.reread bs).readable = true := by
    rw [reread, seekSet, dif_pos hle]
    exact hr
  have hbuf : (s.reread bs).buf = memcpy s.buf s.pos.toNat bs := by
    rw [reread, buf_seekSet]
    exact congrArg (memcpy s.buf s.pos.toNat) hbs
  rw [rest, if_pos hreadable, hbuf, pos_reread, memcpy, List.append_assoc, List.drop_left' hfront]

/-- Going over the output again ends where the output ended. -/
theorem skip_reread (s : Stream) (bs : List UInt8) :
    (s.reread bs).skip bs.length = s.append bs := by
  have hle : (s.append bs).max ≥ s.pos := s.pos_le
  have hlen := length_buf_append s bs
  rw [reread, seekSet, dif_pos hle]
  ext1 <;> try rfl
  change UInt32.ofNat (min (s.pos.toNat + bs.length) (s.append bs).buf.length) = _
  rw [hlen]
  rfl

/-- The bytes in front of the others are as many as there are to skip. -/
theorem after_of_rest {s : Stream} {bs more : List UInt8} (hrest : s.rest = bs ++ more) :
    s.after more = s.skip bs.length ∧ (s.skip bs.length).rest = more := by
  have hlength := congrArg List.length hrest
  rw [List.length_append] at hlength
  constructor
  · rw [after]
    congr 1
    omega
  · rw [rest_skip (by omega), hrest, List.drop_left]

end Stream

/-- What a putter wrote is read back by a getter that decodes it. -/
theorem Getter.Implements.reread {ε α : Type} {g : Getter α} {d : Decoder ε UInt8 α}
    (hg : g.Implements d) {bs : List UInt8} {a : α} (hd : Decoder.Decodes d bs a) {s : Stream}
    (hr : s.readable) (h : bs.length ≤ s.room) : g (s.reread bs) = (some a, s.append bs) := by
  have hrest := Stream.rest_reread hr h
  have hok := hd (s.buf.drop (s.pos.toNat + bs.length))
  rw [← hrest] at hok
  obtain ⟨hrun, -⟩ := (hg (s.reread bs)).after hok
  have hlen : (s.reread bs).rest.length - (s.buf.drop (s.pos.toNat + bs.length)).length =
      bs.length := by
    rw [hrest, List.length_append]
    omega
  rw [hrun, Stream.after, hlen, Stream.skip_reread]

namespace Oer

/-- The size function and the encoder agree, also where both are wrong. -/
theorem length_uintOctets (v : UInt32) : (uintOctets v).length = (sizeofUint v).toNat := by
  unfold uintOctets sizeofUint
  split_ifs <;> rfl

/-- aloof_oer_putUint says true and writes aloof_oer_sizeofUint bytes, and aloof_oer_getUint gets
the number back from them. -/
def UintRoundTrips (v : UInt32) (s : Stream) : Prop :=
  ∃ bs, bs.length = (sizeofUint v).toNat ∧ putUint v s = (true, s.append bs) ∧
    ∀ scratch, getUint scratch ((putUint v s).2.seekSet s.pos).2 = (some v, (putUint v s).2)

theorem sizeofUint_le (v : UInt32) : (sizeofUint v).toNat ≤ 5 := by
  unfold sizeofUint
  split_ifs <;> decide

theorem uint_roundTrip (v : UInt32) (s : Stream) (hr : s.readable = true)
    (hw : s.writable = true) (hroom : 5 ≤ s.room) : UintRoundTrips v s ↔ ¬ Clipped v := by
  have hlen := length_uintOctets v
  have hle := sizeofUint_le v
  have hput := (putUint_appends v).ok (s := s) ⟨hw, by omega⟩
  have hget (scratch : UInt8) := (getUint_implements scratch).reread
    (uintOctets_decodes Grammar.uint_reads v) hr (s := s) (by omega)
  have hpos : ∀ w : UInt32, Clipped w → (0 : UInt32) ≠ w := by
    intro w hc
    obtain rfl | rfl := hc <;> decide
  constructor
  · intro h hv
    obtain ⟨bs, -, -, h⟩ := h
    have heq := congrArg Prod.fst ((hget 0).symm.trans (hput ▸ h 0))
    rw [if_pos hv, Option.some.injEq] at heq
    exact hpos v hv heq
  · intro hv
    refine ⟨uintOctets v, hlen, hput, ?_⟩
    intro scratch
    have h := hget scratch
    rw [if_neg hv, UInt32.ofNat_toNat] at h
    rw [hput]
    exact h

/-- Five free bytes. -/
def blank : Stream := Stream.init [0, 0, 0, 0, 0] (by decide)

theorem uint_roundTrip_blank : UintRoundTrips 0xffff blank :=
  (uint_roundTrip 0xffff blank rfl rfl (Nat.le_refl 5)).mpr (by decide)

/-- 82 00 00 is written for 65536. -/
theorem uint_roundTrip_clipped : blank.readable = true ∧ blank.writable = true ∧ 5 ≤ blank.room ∧
    ¬ UintRoundTrips 0x10000 blank := by
  refine ⟨rfl, rfl, Nat.le_refl 5, ?_⟩
  intro h
  obtain ⟨-, -, -, hget⟩ := h
  exact absurd (congrArg Prod.fst (hget 0)) (by decide)

section Strings

/-- What comes back of a string that aloof_oer_putString wrote. -/
structure StringReturns (b : Bytes) (max : UInt32) (s : Stream)
    (r : Option UInt32 × Option (List UInt8) × Stream) : Prop where
  whole : ¬ Clipped b.size → b.size ≤ max → r = (some b.size, some b.data, (putString b s).2)
  long : ¬ Clipped b.size → ¬ b.size ≤ max → r.1 = some b.size ∧ r.2.1 = none
  clipped : Clipped b.size → r.1 = some 0 ∧ r.2.1 = some []

/-- Once the size is known the rest is one read. -/
theorem getString_size (scratch : UInt8) (max : UInt32) {s : Stream} {bs : List UInt8}
    {v : UInt32} (hd : Decoder.Decodes Grammar.uint bs v) {more : List UInt8}
    (hrest : s.rest = bs ++ more) : getString scratch max s =
      if v ≤ max then (some v, (s.after more).read v) else (some v, none, s.after more) := by
  have hok := hd more
  rw [← hrest] at hok
  obtain ⟨hrun, -⟩ := (getUint_implements scratch s).after hok
  have hdecode : decodeVarint scratch false s = (some v, s.after more) := hrun
  simp only [getString, hdecode]

theorem string_returns (b : Bytes) (max : UInt32) (s : Stream) (hr : s.readable = true)
    (hw : s.writable = true) (hfit : (uintOctets b.size ++ b.data).length ≤ s.room)
    (scratch : UInt8) :
    StringReturns b max s (getString scratch max ((putString b s).2.seekSet s.pos).2) := by
  have hsize := b.toNat_size
  have hput := (putString_appends b).ok ⟨hw, hfit⟩
  have hrest := Stream.rest_reread hr hfit
  have hskip := s.skip_reread (uintOctets b.size ++ b.data)
  have hreadable := (s.readable_reread (uintOctets b.size ++ b.data)).trans hr
  rw [hput]
  change StringReturns b max s (getString scratch max (s.reread (uintOctets b.size ++ b.data)))
  generalize s.buf.drop _ = tail at hrest
  generalize s.reread (uintOctets b.size ++ b.data) = t at hrest hskip hreadable
  rw [List.append_assoc] at hrest
  have hgot := getString_size scratch max (uintOctets_decodes Grammar.uint_reads b.size) hrest
  have hwhole := congrArg List.length hrest
  simp only [List.length_append] at hwhole
  obtain ⟨hafter, hmore⟩ := Stream.after_of_rest hrest
  rw [hafter] at hgot
  constructor
  · intro hv hmax
    have hread : (t.skip (uintOctets b.size).length).read b.size = _ :=
      Stream.read_of_le hreadable (by rw [hmore, List.length_append]; omega)
    rw [hmore, hsize, List.take_left, Stream.skip_skip (by omega), ← List.length_append,
      hskip] at hread
    rw [hgot, if_neg hv, UInt32.ofNat_toNat, if_pos hmax, hread, hput]
  · intro hv hmax
    rw [hgot, if_neg hv, UInt32.ofNat_toNat, if_neg hmax]
    exact ⟨rfl, rfl⟩
  · intro hv
    have hread : (t.skip (uintOctets b.size).length).read 0 = _ :=
      Stream.read_of_le hreadable (Nat.zero_le _)
    rw [hgot, if_pos hv, if_pos (UInt32.le_iff_toNat_le.mpr (Nat.zero_le _))]
    exact ⟨rfl, congrArg Prod.fst hread⟩

/-- Two bytes of text, and no room for a third. -/
theorem string_returns_blank : StringReturns ⟨[72, 105], by decide⟩ 2
    (Stream.init [0, 0, 0] (by decide)) (getString 0 2
      ((putString ⟨[72, 105], by decide⟩ (Stream.init [0, 0, 0] (by decide))).2.seekSet 0).2) :=
  string_returns ⟨[72, 105], by decide⟩ 2 (Stream.init [0, 0, 0] (by decide)) rfl rfl
    (Nat.le_refl 3) 0

end Strings

end Oer

end Aloof.C
