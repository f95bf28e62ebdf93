import Aloof.C.StreamProof

namespace Aloof.C

open Framework

theorem Getter.bind_of_some {α β : Type} {g : Getter α} {f : α → Getter β} {s t : Stream} {a : α}
    (h : g s = (some a, t)) : (g >>= f) s = f a t := by
  simp only [Bind.bind, h]

theorem Getter.bind_of_none {α β : Type} {g : Getter α} {f : α → Getter β} {s t : Stream}
    (h : g s = (none, t)) : (g >>= f) s = (none, t) := by
  simp only [Bind.bind, h]

theorem Getter.bind_eq_some {α β : Type} {g : Getter α} {f : α → Getter β} {s s' : Stream} {b : β}
    (h : (g >>= f) s = (some b, s')) : ∃ a t, g s = (some a, t) ∧ f a t = (some b, s') := by
  rcases hg : g s with ⟨_ | a, t⟩
  · simp [bind_of_none hg] at h
  · exact ⟨a, t, rfl, by rwa [bind_of_some hg] at h⟩

/-- The stream when only tl is left of the unread bytes. -/
def Stream.after (s : Stream) (tl : List UInt8) : Stream := s.skip (s.rest.length - tl.length)

theorem Stream.toNat_pos_after (s : Stream) (tl : List UInt8) :
    (s.after tl).pos.toNat = s.pos.toNat + (s.rest.length - tl.length) := by
  have hr := s.length_rest_le
  exact toNat_pos_skip (by omega)

theorem Stream.length_le_of_after {s : Stream} {tl : List UInt8} (h : (s.after tl).rest = tl) :
    tl.length ≤ s.rest.length := by
  have hlen := congrArg List.length h
  rw [Stream.after, Stream.rest_skip (Nat.sub_le _ _), List.length_drop] at hlen
  omega

/-- On this stream the getter takes what the decoder takes from the unread bytes. When it fails it
may have moved forward, but not past the end. -/
def Getter.ImplementsAt {ε α : Type} (g : Getter α) (d : Decoder ε UInt8 α) (s : Stream) : Prop :=
  ∃ n ≤ s.rest.length, (g s).2 = s.skip n ∧
    match d s.rest with
    | .ok (a, tl) => (g s).1 = some a ∧ s.rest.drop n = tl
    | .error _ => (g s).1 = none

def Getter.Implements {ε α : Type} (g : Getter α) (d : Decoder ε UInt8 α) : Prop :=
  ∀ s, g.ImplementsAt d s

namespace Getter.ImplementsAt

variable {ε α β : Type} {g : Getter α} {d : Decoder ε UInt8 α} {s : Stream}

theorem of_ok {a : α} {n : Nat} (hn : n ≤ s.rest.length) (hg : g s = (some a, s.skip n))
    (hd : d s.rest = .ok (a, s.rest.drop n)) : g.ImplementsAt d s :=
  ⟨n, hn, by rw [hg], by rw [hd, hg]; exact ⟨rfl, rfl⟩⟩

theorem of_error {e : ε} (hg : g s = (none, s)) (hd : d s.rest = .error e) : g.ImplementsAt d s :=
  ⟨0, Nat.zero_le _, by rw [hg, Stream.skip_zero], by rw [hd, hg]⟩

theorem ok (h : g.ImplementsAt d s) {a : α} {tl : List UInt8} (hd : d s.rest = .ok (a, tl)) :
    ∃ n ≤ s.rest.length, g s = (some a, s.skip n) ∧ s.rest.drop n = tl := by
  obtain ⟨n, hn, hs, hm⟩ := h
  rw [hd] at hm
  exact ⟨n, hn, Prod.ext hm.1 hs, hm.2⟩

theorem after (h : g.ImplementsAt d s) {a : α} {tl : List UInt8} (hd : d s.rest = .ok (a, tl)) :
    g s = (some a, s.after tl) ∧ (s.after tl).rest = tl := by
  obtain ⟨n, hn, hs, htl⟩ := h.ok hd
  have hlen : s.rest.length - tl.length = n := by rw [← htl, List.length_drop]; omega
  rw [Stream.after, hlen, Stream.rest_skip hn]
  exact ⟨hs, htl⟩

theorem of_some (h : g.ImplementsAt d s) {a : α} {t : Stream} (hg : g s = (some a, t)) :
    ∃ tl, d s.rest = .ok (a, tl) ∧ t = s.after tl := by
  cases hd : d s.rest with
  | error e =>
    obtain ⟨n, -, -, hm⟩ := h
    rw [hd, hg] at hm
    cases hm
  | ok p =>
    obtain ⟨hrun, -⟩ := h.after hd
    cases hg.symm.trans hrun
    exact ⟨p.2, rfl, rfl⟩

theorem error (h : g.ImplementsAt d s) {e : ε} (hd : d s.rest = .error e) :
    ∃ n ≤ s.rest.length, g s = (none, s.skip n) := by
  obtain ⟨n, hn, hs, hm⟩ := h
  rw [hd] at hm
  exact ⟨n, hn, Prod.ext hm hs⟩

theorem bind {f : α → Getter β} {k : α → Decoder ε UInt8 β} (hg : g.ImplementsAt d s)
    (hf : ∀ a n, g s = (some a, s.skip n) → (f a).ImplementsAt (k a) (s.skip n)) :
    (g >>= f).ImplementsAt (d >>= k) s := by
  cases hd : d s.rest with
  | error e =>
    obtain ⟨n, hn, hs⟩ := hg.error hd
    refine ⟨n, hn, ?_⟩
    rw [Decoder.bind_error hd]
    simp only [Bind.bind, hs, and_self]
  | ok r =>
    obtain ⟨a, tl⟩ := r
    obtain ⟨n, hn, hs, htl⟩ := hg.ok hd
    have hrest := Stream.rest_skip hn
    obtain ⟨m, hm, hs', hmatch⟩ := hf a n hs
    rw [hrest, List.length_drop] at hm
    have hskip := Stream.skip_skip (s := s) (m := n) (n := m) (by omega)
    refine ⟨n + m, by omega, ?_⟩
    have hrun : (g >>= f) s = f a (s.skip n) := by simp only [Bind.bind, hs]
    rw [hrun, Decoder.bind_ok hd, ← htl, ← hrest, hs', hskip]
    refine ⟨rfl, ?_⟩
    rw [hrest, List.drop_drop] at hmatch
    rwa [hrest]

/-- A read of no bytes tells a readable stream from one that is not. -/
theorem read {size : UInt32} (e : ε) (h : s.readable = true ∨ 0 < size.toNat) :
    (Getter.read size).ImplementsAt (Decoder.chunk e size.toNat) s := by
  by_cases hle : size.toNat ≤ s.rest.length
  · have hr : s.readable = true := h.elim id fun hpos => Stream.readable_of_rest (by omega)
    exact of_ok hle (Stream.read_of_le hr hle) (by rw [Decoder.chunk, if_pos hle])
  · exact of_error (Stream.read_of_lt (by omega)) (by rw [Decoder.chunk, if_neg hle])

end Getter.ImplementsAt

namespace Getter.Implements

variable {ε α β : Type} {g : Getter α} {d : Decoder ε UInt8 α}

theorem pure (a : α) : (pure a : Getter α).Implements (pure a : Decoder ε UInt8 α) :=
  fun s => ImplementsAt.of_ok (n := 0) (Nat.zero_le _) (by rw [Stream.skip_zero]; rfl) rfl

theorem fail (e : ε) : (Getter.fail : Getter α).Implements (Decoder.fail e) :=
  fun _ => ImplementsAt.of_error rfl rfl

theorem bind {f : α → Getter β} {k : α → Decoder ε UInt8 β} (hg : g.Implements d)
    (hf : ∀ a, (f a).Implements (k a)) : (g >>= f).Implements (d >>= k) :=
  fun s => (hg s).bind fun a _ _ => hf a _

theorem map (f : α → β) (hg : g.Implements d) :
    (do return f (← g) : Getter β).Implements (do return f (← d)) :=
  hg.bind fun a => pure (f a)

theorem read {size : UInt32} (e : ε) (h : 0 < size.toNat) :
    (Getter.read size).Implements (Decoder.chunk e size.toNat) :=
  fun _ => ImplementsAt.read e (Or.inr h)

end Getter.Implements

namespace Stream

/-- As many of the bytes as fit. -/
def push (s : Stream) (bs : List UInt8) : Stream := s.append (bs.take s.room)

theorem push_of_le {s : Stream} {bs : List UInt8} (h : bs.length ≤ s.room) :
    s.push bs = s.append bs := by
  rw [push, List.take_of_length_le h]

theorem push_push (s : Stream) (xs ys : List UInt8) : (s.push xs).push ys = s.push (xs ++ ys) := by
  have hx : (xs.take s.room).length ≤ s.room := by rw [List.length_take]; omega
  have hroom : (s.push xs).room = s.room - xs.length := by
    rw [push, room_append hx, List.length_take]
    omega
  rw [push, hroom]
  unfold push
  rw [append_append (by simp only [List.length_take]; omega), List.take_append]

@[simp] theorem push_nil (s : Stream) : s.push [] = s := by simp [push]

theorem content_push (s : Stream) (bs : List UInt8) :
    (s.push bs).content = s.content ++ bs.take s.room := by
  rw [push, content_append (by rw [List.length_take]; omega)]

theorem toNat_pos_push (s : Stream) (bs : List UInt8) :
    (s.push bs).pos.toNat = s.pos.toNat + min s.room bs.length := by
  rw [push, toNat_pos_append (by rw [List.length_take]; omega), List.length_take]

theorem room_push (s : Stream) (bs : List UInt8) : (s.push bs).room = s.room - bs.length := by
  rw [push, room_append (by rw [List.length_take]; omega), List.length_take]
  omega

theorem seekSet_pos (s : Stream) : (s.seekSet s.pos).2 = s := by
  rw [seekSet, dif_pos s.pos_le]

@[simp] theorem buf_seekSet (s : Stream) (offset : UInt32) :
    (s.seekSet offset).2.buf = s.buf := by
  unfold seekSet
  split_ifs <;> rfl

theorem toNat_pos_seekSet (s : Stream) (offset : UInt32) :
    (s.seekSet offset).2.pos.toNat =
      if offset.toNat ≤ s.max.toNat then offset.toNat else s.pos.toNat := by
  by_cases h : offset ≤ s.max
  · rw [seekSet, dif_pos h, if_pos (UInt32.le_iff_toNat_le.mp h)]
  · rw [seekSet, dif_neg h, if_neg (mt UInt32.le_iff_toNat_le.mpr h)]

/-- Seeking forward from anywhere is skipping. -/
theorem seekSet_skip {s : Stream} {offset : UInt32} {k : Nat} (n : Nat)
    (hk : k ≤ s.rest.length) (hoffset : offset.toNat = s.pos.toNat + k) :
    ((s.skip n).seekSet offset).2 = s.skip k := by
  have hr := s.length_rest_le
  have hp := s.pos_le_length
  have hle : (s.skip n).max ≥ offset := by
    change offset ≤ s.max
    rw [UInt32.le_iff_toNat_le, hoffset, ← s.size_eq]
    omega
  rw [seekSet, dif_pos hle]
  ext1 <;> try rfl
  apply UInt32.toNat_inj.mp
  rw [hoffset, toNat_pos_skip (by omega)]

/-- Two output streams that differ at most in what lies past the position. -/
structure Alike (s t : Stream) : Prop where
  writable : s.writable = t.writable
  max : s.max = t.max
  content : s.content = t.content

namespace Alike

variable {s t u : Stream}

theorem refl (s : Stream) : Alike s s := ⟨rfl, rfl, rfl⟩

theorem of_eq (h : s = t) : Alike s t := h ▸ refl s

theorem trans (h : Alike s t) (k : Alike t u) : Alike s u :=
  ⟨h.writable.trans k.writable, h.max.trans k.max, h.content.trans k.content⟩

theorem toNat_pos (h : Alike s t) : s.pos.toNat = t.pos.toNat := by
  rw [← length_content, h.content, length_content]

theorem room (h : Alike s t) : s.room = t.room := by
  unfold Stream.room
  rw [h.writable, h.toNat_pos, s.size_eq, t.size_eq, h.max]

theorem push (h : Alike s t) (bs : List UInt8) : Alike (s.push bs) (t.push bs) := by
  refine ⟨h.writable, h.max, ?_⟩
  rw [content_push, content_push, h.content, h.room]

theorem append (h : Alike s t) {bs : List UInt8} (hbs : bs.length ≤ s.room) :
    Alike (s.append bs) (t.append bs) := by
  rw [← push_of_le hbs, ← push_of_le (h.room ▸ hbs)]
  exact h.push bs

/-- What was there before the push is still there. -/
theorem take_buf {bs : List UInt8} (h : Alike s (t.push bs)) :
    s.buf.take t.pos.toNat = t.buf.take t.pos.toNat := by
  have hlong : t.pos.toNat ≤ s.pos.toNat := by
    rw [h.toNat_pos, toNat_pos_push]
    omega
  calc s.buf.take t.pos.toNat = s.content.take t.pos.toNat := by
        rw [Stream.content, List.take_take, Nat.min_eq_left hlong]
    _ = t.content := by rw [h.content, content_push, List.take_left' t.length_content]

end Alike

/-- Seeking back to where some of the bytes had been written takes back the others. -/
theorem push_seekSet (s : Stream) (xs ys : List UInt8) :
    Alike ((s.push (xs ++ ys)).seekSet (s.push xs).pos).2 (s.push xs) := by
  have hle : (s.push (xs ++ ys)).max ≥ (s.push xs).pos := (s.push xs).pos_le
  have hnone : min (min s.room xs.length) s.room - xs.length = 0 := by omega
  have hmin : min (min s.room xs.length) s.room = min s.room xs.length := by omega
  have hprefix : (s.push (xs ++ ys)).content.take (s.push xs).pos.toNat = (s.push xs).content := by
    rw [content_push, content_push, toNat_pos_push, ← length_content, List.take_length_add_append,
      List.take_take, List.take_append, hnone, hmin, List.take_zero, List.append_nil,
      ← List.take_eq_take_min]
  have hpos := toNat_pos_push s (xs ++ ys)
  rw [List.length_append] at hpos
  rw [seekSet, dif_pos hle]
  refine ⟨rfl, rfl, ?_⟩
  rw [← hprefix, Stream.content, Stream.content, List.take_take, hpos, toNat_pos_push]
  congr 1
  omega

end Stream

/-- The call whose result is cast to void. -/
def Putter.void (p : Putter) (s : Stream) : Stream := (p s).2

/-- The putter appends these bytes and says true, or finds no room for them all, appends
something shorter and says false. -/
def Putter.Appends (p : Putter) (bs : List UInt8) : Prop :=
  ∀ s : Stream, if s.Fits bs.length then p s = (true, s.append bs)
    else (p s).1 = false ∧ ∃ n ≤ s.room, (p s).2 = s.append (bs.take n)

namespace Putter.Appends

variable {p q : Putter} {xs ys : List UInt8}

theorem ok (h : p.Appends xs) {s : Stream} (hs : s.Fits xs.length) :
    p s = (true, s.append xs) := by
  have hp := h s
  rwa [if_pos hs] at hp

theorem not_ok (h : p.Appends xs) {s : Stream} (hs : ¬ s.Fits xs.length) :
    (p s).1 = false ∧ ∃ n ≤ s.room, (p s).2 = s.append (xs.take n) := by
  have hp := h s
  rwa [if_neg hs] at hp

theorem unique (hx : p.Appends xs) (hy : p.Appends ys) {s : Stream} (hsx : s.Fits xs.length)
    (hsy : s.Fits ys.length) : xs = ys := by
  have happend : s.append xs = s.append ys :=
    congrArg Prod.snd ((hx.ok hsx).symm.trans (hy.ok hsy))
  have hcontent := congrArg Stream.content happend
  rw [Stream.content_append hsx.2, Stream.content_append hsy.2] at hcontent
  exact List.append_cancel_left hcontent

theorem write (bs : List UInt8) : Putter.Appends (fun s => s.write bs) bs := by
  intro s
  split_ifs with hs
  · exact Stream.write_of_fits hs
  · change (s.write bs).1 = false ∧ ∃ n ≤ s.room, (s.write bs).2 = _
    rw [Stream.write_of_not_fits hs]
    exact ⟨rfl, 0, Nat.zero_le _, by simp⟩

theorem andThen (hp : p.Appends xs) (hq : q.Appends ys) :
    (p.andThen q).Appends (xs ++ ys) := by
  intro s
  rw [List.length_append]
  by_cases hx : s.Fits xs.length
  · have hroom := Stream.room_append hx.2
    have hrun : p.andThen q s = q (s.append xs) := by simp only [Putter.andThen, hp.ok hx]
    rw [hrun]
    have hfit : s.Fits (xs.length + ys.length) ↔ (s.append xs).Fits ys.length := by
      have hle := hx.2
      have hw := hx.1
      simp only [Stream.Fits, Stream.writable_append, hroom, hw, true_and]
      omega
    split_ifs with hs
    · rw [hq.ok (hfit.mp hs), Stream.append_append hs.2]
    · obtain ⟨hf, n, hn, hs'⟩ := hq.not_ok (fun h => hs (hfit.mpr h))
      rw [hroom] at hn
      refine ⟨hf, xs.length + n, by have := hx.2; omega, ?_⟩
      rw [hs', Stream.append_append (by rw [List.length_take]; have := hx.2; omega),
        List.take_length_add_append]
  · rw [if_neg (fun h => hx ⟨h.1, by have := h.2; omega⟩)]
    obtain ⟨hf, n, hn, hs⟩ := hp.not_ok hx
    have hrun : p.andThen q s = (false, s.append (xs.take n)) := by
      have hpair : p s = (false, s.append (xs.take n)) := Prod.ext hf hs
      simp only [Putter.andThen, hpair]
    rw [hrun]
    refine ⟨rfl, min n xs.length, by omega, ?_⟩
    rw [List.take_append_of_le_length (Nat.min_le_right _ _), ← List.take_eq_take_min]

/-- A single byte is written whole or not at all. -/
theorem void_singleton {b : UInt8} (h : p.Appends [b]) (s : Stream) : p.void s = s.push [b] := by
  by_cases hs : s.Fits 1
  · have hle : [b].length ≤ s.room := hs.2
    rw [Putter.void, h.ok hs, Stream.push_of_le hle]
  · obtain ⟨-, n, hn, hs'⟩ := h.not_ok hs
    have hroom : s.room = 0 := by
      rw [Stream.fits_iff_le_room Nat.one_pos] at hs
      omega
    rw [Putter.void, hs', Stream.push, hroom, show n = 0 by omega]

/-- After its first byte a putter cannot take it back. -/
theorem andThen_moves {b : UInt8} (hp : p.Appends [b]) (hq : q.Appends ys) {s : Stream}
    (hroom : 0 < s.room) : s.pos.toNat < ((p.andThen q) s).2.pos.toNat := by
  have hfit : s.Fits [b].length := (Stream.fits_iff_le_room Nat.one_pos).mpr hroom
  have hrun : p.andThen q s = q (s.append [b]) := by simp only [Putter.andThen, hp.ok hfit]
  have hfirst := Stream.toNat_pos_append hfit.2
  rw [List.length_singleton] at hfirst
  obtain ⟨bs, hbs, hs⟩ : ∃ bs : List UInt8, bs.length ≤ (s.append [b]).room ∧
      (q (s.append [b])).2 = (s.append [b]).append bs := by
    by_cases hys : (s.append [b]).Fits ys.length
    · exact ⟨ys, hys.2, by rw [hq.ok hys]⟩
    · obtain ⟨-, n, hn, hs⟩ := hq.not_ok hys
      exact ⟨ys.take n, by rw [List.length_take]; omega, hs⟩
  rw [hrun, hs, Stream.toNat_pos_append hbs]
  omega

end Putter.Appends

/-- What a function can do to a stream that it uses for output only. -/
inductive Writes : Stream → Stream → Prop
  | refl (s : Stream) : Writes s s
  | step {s t : Stream} (ptr : List UInt8) : Writes (s.write ptr).2 t → Writes s t

theorem Writes.append {s t : Stream} (h : Writes s t) :
    ∃ bs, bs.length ≤ s.room ∧ t = s.append bs := by
  induction h with
  | refl s => exact ⟨[], Nat.zero_le _, by simp⟩
  | @step s t ptr _ ih =>
    obtain ⟨bs, hbs, rfl⟩ := ih
    by_cases hs : s.Fits ptr.length
    · rw [Stream.write_of_fits hs, Stream.room_append hs.2] at hbs
      have hle := hs.2
      refine ⟨ptr ++ bs, by rw [List.length_append]; omega, ?_⟩
      rw [Stream.write_of_fits hs, Stream.append_append (by omega)]
    · rw [Stream.write_of_not_fits hs] at hbs ⊢
      exact ⟨bs, hbs, rfl⟩

theorem Writes.of_append {s : Stream} {bs : List UInt8} (h : bs.length ≤ s.room) :
    Writes s (s.append bs) := by
  rcases Nat.eq_zero_or_pos bs.length with h0 | hpos
  · rw [List.length_eq_zero_iff.mp h0, Stream.append_nil]
    exact .refl s
  · have hwrite := Stream.write_of_fits ((Stream.fits_iff_le_room hpos).mpr h)
    have hs : (s.write bs).2 = s.append bs := by rw [hwrite]
    exact .step bs (hs ▸ .refl _)

theorem Writes.trans {s t u : Stream} (h : Writes s t) (h' : Writes t u) : Writes s u := by
  induction h with
  | refl s => exact h'
  | step ptr _ ih => exact .step ptr (ih h')

theorem Putter.Appends.writes {p : Putter} {bs : List UInt8} (h : p.Appends bs) (s : Stream) :
    Writes s (p s).2 := by
  by_cases hs : s.Fits bs.length
  · rw [h.ok hs]
    exact .of_append hs.2
  · obtain ⟨-, n, hn, hs'⟩ := h.not_ok hs
    rw [hs']
    exact .of_append (by rw [List.length_take]; omega)

end Aloof.C
