import Aloof.C.TestServerRuns
import Aloof.Ruby.TcpProof

namespace Aloof.Agreement

open Framework C C.TestServer
open Ruby.Tcp (Segmentation recv)

/-- Both calls of write(2): the header in the byte order of the host, and the message. -/
def written (message : List UInt8) : List UInt8 :=
  UInt8.ofNat message.length :: UInt8.ofNat (message.length / 256) :: message

/-- The inner loop of main from its i-th call of read(2) on, which cuts the stream as recv does.
What is written to the client, and the state that is left at the break. -/
def connection (seg : Segmentation) (left : Nat → Leftover) (i : Nat) (s : StateHolder)
    (unread : List UInt8) : List UInt8 × StateHolder :=
  match _hheader : recv seg i 2 unread with
  | none => ([], s)
  | some (buf, unread') =>
    match buf with
    | [low, high] =>
      let header := low.toNat + 256 * high.toNat
      if hfit : header ≤ 1024 then
        match _hmessage : recv seg (i + 1) header unread' with
        | none => ([], s)
        | some (message, unread'') =>
          if hn : message.length = header then
            let r := serve (left i) s ⟨message, hn ▸ hfit⟩
            let rest := connection seg left (i + 2) r.2 unread''
            ((r.1.map written).getD [] ++ rest.1, rest.2)
          else ([], s)
      else ([], s)
    -- n != sizeof(header)
    | _ => ([], s)
termination_by unread.length
decreasing_by
  have hshorter := (Ruby.Tcp.recv_shorter _hheader).2 Nat.two_pos
  exact Nat.lt_of_le_of_lt (Ruby.Tcp.recv_shorter _hmessage).1 hshorter

section Loop

variable (seg : Segmentation) (left : Nat → Leftover) (i : Nat) (s : StateHolder)

theorem connection_nil : connection seg left i s [] = ([], s) := by
  rw [connection]
  rfl

theorem connection_header_cut {unread rest : List UInt8} {low : UInt8}
    (hheader : recv seg i 2 unread = some ([low], rest)) :
    connection seg left i s unread = ([], s) := by
  rw [connection]
  split
  next => rfl
  next hheader' => cases hheader.symm.trans hheader'; rfl

theorem connection_too_long {unread rest : List UInt8} {low high : UInt8}
    (hheader : recv seg i 2 unread = some ([low, high], rest))
    (hfit : 1024 < low.toNat + 256 * high.toNat) :
    connection seg left i s unread = ([], s) := by
  rw [connection]
  split
  next => rfl
  next hheader' =>
    cases hheader.symm.trans hheader'
    dsimp only
    rw [dif_neg (by omega)]

/-- One read(2) got the header, and one as much of the message as it is told. -/
theorem connection_read {unread rest rest' message : List UInt8} {low high : UInt8}
    (hheader : recv seg i 2 unread = some ([low, high], rest))
    (hfit : low.toNat + 256 * high.toNat ≤ 1024)
    (hmessage : recv seg (i + 1) (low.toNat + 256 * high.toNat) rest = some (message, rest')) :
    connection seg left i s unread =
      if hn : message.length = low.toNat + 256 * high.toNat then
        let r := serve (left i) s ⟨message, hn ▸ hfit⟩
        let rest := connection seg left (i + 2) r.2 rest'
        ((r.1.map written).getD [] ++ rest.1, rest.2)
      else ([], s) := by
  rw [connection]
  split
  next hheader' => cases hheader.symm.trans hheader'
  next hheader' =>
    cases hheader.symm.trans hheader'
    dsimp only
    rw [dif_pos hfit]
    split
    next hmessage' => cases hmessage.symm.trans hmessage'
    next hmessage' =>
      cases hmessage.symm.trans hmessage'
      rfl

/-- The reads do not cut the message, and there is room for it. -/
def Arrives (m : List UInt8) : Prop :=
  2 ≤ seg.limit i ∧ m.length ≤ seg.limit (i + 1) ∧ m.length ≤ 1024

instance (m : List UInt8) : Decidable (Arrives seg i m) := inferInstanceAs (Decidable (_ ∧ _ ∧ _))

/-- A message is processed as it was sent, or it is the end of the connection. -/
theorem connection_tx {m : List UInt8} (hm : m.length ≤ 65535) (more : List UInt8) :
    connection seg left i s (Ruby.Tcp.tx (.binary m) ++ more) =
      if h : Arrives seg i m then
        let r := serve (left i) s ⟨m, h.2.2⟩
        let rest := connection seg left (i + 2) r.2 more
        ((r.1.map written).getD [] ++ rest.1, rest.2)
      else ([], s) := by
  obtain ⟨low, high, htx, hlength⟩ := Ruby.Tcp.tx_binary hm
  have hpos := seg.limit_pos i
  have hheader := Ruby.Tcp.recv_of_ne_nil seg i 2 (List.cons_ne_nil low (high :: (m ++ more)))
  rw [htx, List.cons_append, List.cons_append]
  by_cases hcut : 2 ≤ seg.limit i
  · rw [Nat.min_eq_left hcut] at hheader
    by_cases hfit : m.length ≤ 1024
    · have hmessage : recv seg (i + 1) m.length (m ++ more) =
          some ((m ++ more).take (min m.length (seg.limit (i + 1))),
            (m ++ more).drop (min m.length (seg.limit (i + 1)))) := by
        refine if_neg fun hwait => ?_
        obtain ⟨hne, hnil⟩ := hwait
        rw [(List.append_eq_nil_iff.mp hnil).1] at hne
        exact Nat.lt_irrefl 0 hne
      rw [← hlength] at hmessage
      rw [connection_read seg left i s hheader (hlength ▸ hfit) hmessage]
      simp only [hlength]
      by_cases hpart : m.length ≤ seg.limit (i + 1)
      · have hmin : min m.length (seg.limit (i + 1)) = m.length := Nat.min_eq_left hpart
        simp only [hmin, List.take_left, List.drop_left, dif_pos,
          show Arrives seg i m from ⟨hcut, hpart, hfit⟩]
      · have hshort : ¬ ((m ++ more).take (min m.length (seg.limit (i + 1)))).length =
            m.length := by
          rw [List.length_take, List.length_append]
          omega
        rw [dif_neg hshort, dif_neg fun h => hpart h.2.1]
    · rw [connection_too_long seg left i s hheader (by omega), dif_neg fun h => hfit h.2.2]
  · have hone : min 2 (seg.limit i) = 1 := by omega
    rw [hone] at hheader
    rw [connection_header_cut seg left i s hheader, dif_neg fun h => hcut h.1]

/-- The messages before the first that does not arrive. -/
def arriving : Nat → List (List UInt8) → List (List UInt8)
  | _, [] => []
  | i, m :: messages => if Arrives seg i m then m :: arriving (i + 2) messages else []

theorem arriving_first (messages : List (List UInt8)) :
    arriving seg i messages <+: messages := by
  induction messages generalizing i with
  | nil => exact List.prefix_refl _
  | cons m messages ih =>
    rw [arriving]
    split_ifs with h
    · exact List.cons_prefix_cons.mpr ⟨rfl, ih (i + 2)⟩
    · exact List.nil_prefix

theorem arriving_all (messages : List (List UInt8)) :
    arriving seg i messages = messages ↔
      ∀ k m, messages[k]? = some m → Arrives seg (i + 2 * k) m := by
  induction messages generalizing i with
  | nil => exact iff_of_true rfl fun k m h => by cases h
  | cons m messages ih =>
    rw [arriving]
    by_cases harrives : Arrives seg i m
    · rw [if_pos harrives, List.cons.injEq, ih (i + 2)]
      constructor
      · intro h k m' hm'
        cases k with
        | zero => cases hm'; exact harrives
        | succ k =>
          rw [show i + 2 * (k + 1) = i + 2 + 2 * k by omega]
          exact h.2 k m' hm'
      · intro h
        refine ⟨rfl, fun k m' hm' => ?_⟩
        rw [show i + 2 + 2 * k = i + 2 * (k + 1) by omega]
        exact h (k + 1) m' hm'
    · rw [if_neg harrives]
      exact iff_of_false (List.cons_ne_nil m messages).symm fun h => harrives (h 0 m rfl)

theorem written_eq_tx (m : List UInt8) : written m = Ruby.Tcp.tx (.binary m) := by
  rw [written, Ruby.Tcp.tx, Ruby.RubyString.binary, Ruby.pack_natCast]
  simp [octets]

/-- What the store has to say to these messages. -/
def replies (c : Cells) (messages : List (List UInt8)) : List (List UInt8) :=
  (Framework.answers store.call c messages).1.filterMap id

theorem replies_cons (c : Cells) (m : List UInt8) (messages : List (List UInt8)) :
    replies c (m :: messages) =
      (store.call c m).1.toList ++ replies (store.call c m).2 messages := by
  rw [replies, Framework.answers, List.filterMap_cons]
  cases (store.call c m).1 <;> rfl

theorem connection_store {messages : List (List UInt8)}
    (hmessages : ∀ m ∈ messages, m.length ≤ 65535) :
    let r := connection seg left i s (Ruby.Tcp.txAll messages)
    r.1 = Ruby.Tcp.txAll (replies (cells s) (arriving seg i messages)) ∧
    cells r.2 = store.after (cells s) (arriving seg i messages) := by
  induction messages generalizing i s with
  | nil =>
    rw [show Ruby.Tcp.txAll [] = [] from rfl, connection_nil]
    exact ⟨rfl, rfl⟩
  | cons m messages ih =>
    rw [List.forall_mem_cons] at hmessages
    have hall : Ruby.Tcp.txAll (m :: messages) =
        Ruby.Tcp.tx (.binary m) ++ Ruby.Tcp.txAll messages := rfl
    dsimp only
    rw [hall, connection_tx seg left i s hmessages.1, arriving]
    by_cases harrives : Arrives seg i m
    · rw [dif_pos harrives, if_pos harrives]
      obtain ⟨hwritten, hcells⟩ := ih (i + 2) (serve (left i) s ⟨m, harrives.2.2⟩).2 hmessages.2
      have hserve := serve_store s (left i) ⟨m, harrives.2.2⟩
      have hafter : store.after (cells s) (m :: arriving seg (i + 2) messages) =
          store.after (store.call (cells s) m).2 (arriving seg (i + 2) messages) := rfl
      dsimp only at hserve ⊢
      rw [hwritten, hcells, replies_cons, hafter, hserve]
      refine ⟨?_, rfl⟩
      cases (serve (left i) s ⟨m, harrives.2.2⟩).1 with
      | none => rfl
      | some bs =>
        change written bs ++ _ = _
        rw [written_eq_tx]
        rfl
    · rw [dif_neg harrives, if_neg harrives]
      exact ⟨rfl, rfl⟩

end Loop

theorem replies_fit {c : Cells} {messages : List (List UInt8)} :
    ∀ bs ∈ replies c messages, bs ≠ [] ∧ bs.length ≤ 65535 := by
  induction messages generalizing c with
  | nil => intro bs h; cases h
  | cons m messages ih =>
    intro bs h
    rw [replies_cons, List.mem_append] at h
    rcases h with h | h
    · obtain ⟨req, -, hreply⟩ := Option.bind_eq_some_iff.mp (Option.mem_toList.mp h)
      obtain ⟨hpos, hlength⟩ := length_reply hreply
      exact ⟨List.length_pos_iff.mp hpos, Nat.le_trans hlength (by decide)⟩
    · exact ih bs h

/-- However the two streams are cut: the server takes messages as they were sent, from the first one
on, and what it writes are the replies of the store to those. -/
theorem tcp_session (seg seg' : Segmentation) (left : Nat → Leftover) (s : StateHolder)
    {messages : List (List UInt8)} (hmessages : ∀ m ∈ messages, m.length ≤ 65535) :
    let taken := arriving seg 0 messages
    let r := connection seg left 0 s (Ruby.Tcp.txAll messages)
    taken <+: messages ∧
    (taken = messages ↔ ∀ k m, messages[k]? = some m → Arrives seg (2 * k) m) ∧
    r.1 = Ruby.Tcp.txAll (replies (cells s) taken) ∧
    cells r.2 = store.after (cells s) taken ∧
    (Ruby.Tcp.read seg' 0 r.1 = replies (cells s) taken ↔
      Ruby.Tcp.Uncut seg' 0 (replies (cells s) taken)) := by
  intro taken r
  obtain ⟨hwritten, hcells⟩ := connection_store seg left 0 s hmessages
  have hall := arriving_all seg 0 messages
  simp only [Nat.zero_add] at hall
  refine ⟨arriving_first seg 0 messages, hall, hwritten, hcells, ?_⟩
  rw [hwritten]
  exact Ruby.Tcp.read_txAll seg' 0 replies_fit

/-- A write that is read back, and a third message that the first read(2) behind them cuts. -/
theorem tcp_session_cut :
    let seg : Segmentation := ⟨fun i => if i = 4 then 1 else 9, fun i => by split <;> decide⟩
    let messages := [[3, 0x80, 0, 1, 1, 42], [3, 0x81, 1, 1], [3, 0x82, 0, 1, 1, 7]]
    let r := connection seg (fun _ => clean) 0 state (Ruby.Tcp.txAll messages)
    r.1 = Ruby.Tcp.txAll [[4, 0x80, 0, 0], [4, 0x81, 1, 0, 1, 42]] ∧
    Ruby.Tcp.read seg 0 r.1 = [[4, 0x80, 0, 0], [4, 0x81, 1, 0, 1, 42]] := by
  intro seg messages r
  obtain ⟨-, -, hwritten, -, hread⟩ :=
    @tcp_session seg seg (fun _ => clean) state messages (by decide)
  have hreplies : replies (cells state) (arriving seg 0 messages) =
      [[4, 0x80, 0, 0], [4, 0x81, 1, 0, 1, 42]] := by rfl
  rw [hreplies] at hwritten hread
  refine ⟨hwritten, hread.mpr ?_⟩
  rintro (_ | _ | k) m hm
  · cases hm
    decide
  · cases hm
    decide
  · cases hm

end Aloof.Agreement
