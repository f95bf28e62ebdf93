import Aloof.Ruby.CodecProof
import Aloof.Ruby.Tcp

namespace Aloof.Ruby.Tcp

open Framework

variable (seg : Segmentation) (i : Nat)

theorem recv_of_ne_nil (n : Nat) {unread : List UInt8} (h : unread ≠ []) :
    recv seg i n unread =
      some (unread.take (min n (seg.limit i)), unread.drop (min n (seg.limit i))) :=
  if_neg fun hwait => h hwait.2

theorem read_nil : read seg i [] = [] := by
  rw [read]
  rfl

theorem read_of_unpack_none {unread buf rest : List UInt8}
    (hbuf : recv seg i 2 unread = some (buf, rest)) (hsize : unpackSize buf = none) :
    read seg i unread = [] := by
  rw [read]
  split
  next => rfl
  next hbuf' =>
    cases hbuf.symm.trans hbuf'
    rw [hsize]

theorem read_of_recv {unread buf msg rest rest' : List UInt8} {size : Nat}
    (hbuf : recv seg i 2 unread = some (buf, rest)) (hsize : unpackSize buf = some size)
    (hmsg : recv seg (i + 1) size rest = some (msg, rest')) :
    read seg i unread = (if msg.length > 0 then [msg] else []) ++ read seg (i + 2) rest' := by
  rw [read]
  split
  next hbuf' => cases hbuf.symm.trans hbuf'
  next hbuf' =>
    cases hbuf.symm.trans hbuf'
    rw [hsize]
    dsimp only
    split
    next hmsg' => cases hmsg.symm.trans hmsg'
    next hmsg' =>
      cases hmsg.symm.trans hmsg'
      rfl

theorem tx_binary {m : List UInt8} (h : m.length ≤ 65535) :
    ∃ low high, tx (.binary m) = low :: high :: m ∧
      low.toNat + 256 * high.toNat = m.length := by
  refine ⟨UInt8.ofNat (m.length / 1), UInt8.ofNat (m.length / 256), ?_, ?_⟩
  · rw [tx, RubyString.binary, pack_natCast]
    rfl
  · rw [UInt8.toNat_ofNat', UInt8.toNat_ofNat']
    omega

/-- What comes of a frame: nothing if its header is cut, else what one recv gets of its body. -/
theorem read_tx {m : List UInt8} (hne : m ≠ []) (hm : m.length ≤ 65535) (more : List UInt8) :
    read seg i (tx (.binary m) ++ more) =
      if seg.limit i < 2 then []
      else m.take (seg.limit (i + 1)) ::
        read seg (i + 2) ((m ++ more).drop (min m.length (seg.limit (i + 1)))) := by
  obtain ⟨low, high, htx, hlength⟩ := tx_binary hm
  have hpos := seg.limit_pos i
  have hpos' := seg.limit_pos (i + 1)
  have hmore := List.length_pos_iff.mpr hne
  have hbuf := recv_of_ne_nil seg i 2 (List.cons_ne_nil low (high :: (m ++ more)))
  rw [htx, List.cons_append, List.cons_append]
  split_ifs with hcut
  · have hone : min 2 (seg.limit i) = 1 := by omega
    rw [hone] at hbuf
    exact read_of_unpack_none seg i hbuf rfl
  · have htwo : min 2 (seg.limit i) = 2 := by omega
    rw [htwo] at hbuf
    have hbody : m ++ more ≠ [] := List.append_ne_nil_of_left_ne_nil hne more
    have hmsg := recv_of_ne_nil seg (i + 1) m.length hbody
    rw [List.take_append_of_le_length (Nat.min_le_left _ _), Nat.min_comm, ← List.take_take,
      List.take_length, Nat.min_comm] at hmsg
    have hsize : unpackSize [low, high] = some m.length := congrArg some hlength
    rw [read_of_recv seg i hbuf hsize hmsg, if_pos (by rw [List.length_take]; omega)]
    rfl

/-- No cut inside a header, and none inside a body. -/
def Uncut (messages : List (List UInt8)) : Prop :=
  ∀ k m, messages[k]? = some m →
    2 ≤ seg.limit (i + 2 * k) ∧ m.length ≤ seg.limit (i + 2 * k + 1)

theorem uncut_cons (m : List UInt8) (messages : List (List UInt8)) :
    Uncut seg i (m :: messages) ↔
      (2 ≤ seg.limit i ∧ m.length ≤ seg.limit (i + 1)) ∧ Uncut seg (i + 2) messages := by
  constructor
  · intro h
    refine ⟨h 0 m rfl, fun k m' hm' => ?_⟩
    have hk := h (k + 1) m' hm'
    rwa [show i + 2 * (k + 1) = i + 2 + 2 * k by omega] at hk
  · intro h k m' hm'
    obtain ⟨hfirst, hrest⟩ := h
    cases k with
    | zero =>
      cases hm'
      exact hfirst
    | succ k =>
      rw [show i + 2 * (k + 1) = i + 2 + 2 * k by omega]
      exact hrest k m' hm'

theorem read_txAll {messages : List (List UInt8)}
    (hmessages : ∀ m ∈ messages, m ≠ [] ∧ m.length ≤ 65535) :
    read seg i (txAll messages) = messages ↔ Uncut seg i messages := by
  induction messages generalizing i with
  | nil => exact iff_of_true (read_nil seg i) fun k m h => by cases h
  | cons m messages ih =>
    rw [List.forall_mem_cons] at hmessages
    obtain ⟨⟨hne, hm⟩, hrest⟩ := hmessages
    change read seg i (tx (.binary m) ++ txAll messages) = _ ↔ _
    rw [read_tx seg i hne hm, uncut_cons, ← ih (i + 2) hrest]
    by_cases hcut : seg.limit i < 2
    · rw [if_pos hcut]
      exact iff_of_false (List.cons_ne_nil m messages).symm fun h => by omega
    rw [if_neg hcut]
    rcases Nat.lt_or_ge (seg.limit (i + 1)) m.length with hshort | hfit
    · refine iff_of_false (fun h => ?_) fun h => by omega
      have hlength := congrArg List.length (List.cons.inj h).1
      rw [List.length_take] at hlength
      omega
    · rw [List.take_of_length_le hfit, Nat.min_eq_left hfit, List.drop_left]
      constructor
      · exact fun h => ⟨⟨Nat.not_lt.mp hcut, hfit⟩, (List.cons.inj h).2⟩
      · exact fun h => congrArg (List.cons m) h.2

/-- The reader takes what one recv returns for the header, and then for the message. -/
theorem segmentation (messages : List (List UInt8))
    (hmessages : ∀ m ∈ messages, m ≠ [] ∧ m.length ≤ 65535) :
    read seg 0 (txAll messages) = messages ↔
      ∀ k m, messages[k]? = some m →
        2 ≤ seg.limit (2 * k) ∧ m.length ≤ seg.limit (2 * k + 1) := by
  refine (read_txAll seg 0 hmessages).trans ?_
  rw [Uncut]
  simp only [Nat.zero_add]

/-- Every recv returns all that is asked for, up to four bytes. -/
def byFour : Segmentation := ⟨fun _ => 4, fun _ => by decide⟩

theorem segmentation_byFour : read byFour 0 (txAll [[1, 2, 3], [4]]) = [[1, 2, 3], [4]] := by
  apply (segmentation byFour [[1, 2, 3], [4]] (by decide)).mpr
  rintro (_ | _ | k) m hm
  · cases hm
    decide
  · cases hm
    decide
  · cases hm

/-- A message of five bytes loses one; what follows is read from inside it. -/
theorem segmentation_short :
    read byFour 0 (txAll [[1, 2, 3, 4, 5], [6]]) = [[1, 2, 3, 4], [0, 6]] ∧
    read byFour 0 (txAll [[1, 2, 3, 4, 5], [6]]) ≠ [[1, 2, 3, 4, 5], [6]] := by
  have hsent : txAll [[1, 2, 3, 4, 5], [6]] = [5, 0, 1, 2, 3, 4, 5, 1, 0, 6] := by decide
  have hheader : recv byFour 0 2 [5, 0, 1, 2, 3, 4, 5, 1, 0, 6] =
      some ([5, 0], [1, 2, 3, 4, 5, 1, 0, 6]) := rfl
  have hbody : recv byFour 1 5 [1, 2, 3, 4, 5, 1, 0, 6] =
      some ([1, 2, 3, 4], [5, 1, 0, 6]) := rfl
  have hheader' : recv byFour 2 2 [5, 1, 0, 6] = some ([5, 1], [0, 6]) := rfl
  have hbody' : recv byFour 3 261 [0, 6] = some ([0, 6], []) := rfl
  rw [hsent, read_of_recv byFour 0 hheader rfl hbody, read_of_recv byFour 2 hheader' rfl hbody',
    read_nil]
  decide

end Aloof.Ruby.Tcp
