import Aloof.Ruby.Codec

namespace Aloof.Ruby.Tcp

/-- What is written to the socket: "S<" has the low byte of the size first, "a*" is the string. -/
def tx (buffer : RubyString) : List UInt8 :=
  (pack 2 buffer.size).reverse ++ buffer.bytes

/-- How the stream is cut: the most that each call of recv returns, which is not nothing. -/
structure Segmentation where
  limit : Nat → Nat
  limit_pos : ∀ i, 0 < limit i

/-- @socket.recv(n), as the i-th call, with what is left unread. It waits while there is nothing to
read: then no call follows. -/
def recv (seg : Segmentation) (i n : Nat) (unread : List UInt8) :
    Option (List UInt8 × List UInt8) :=
  if 0 < n ∧ unread = [] then none
  else some (unread.take (min n (seg.limit i)), unread.drop (min n (seg.limit i)))

/-- buf.unpack("S<").first. -/
def unpackSize : List UInt8 → Option Nat
  | low :: high :: _ => some (low.toNat + 256 * high.toNat)
  | _ => none

theorem recv_shorter {seg : Segmentation} {i n : Nat} {unread msg rest : List UInt8}
    (h : recv seg i n unread = some (msg, rest)) :
    rest.length ≤ unread.length ∧ (0 < n → rest.length < unread.length) := by
  unfold recv at h
  split_ifs at h with hwait
  obtain ⟨-, rfl⟩ := Prod.mk.inj (Option.some.inj h)
  have hlimit := seg.limit_pos i
  rw [List.length_drop]
  refine ⟨Nat.sub_le _ _, fun hn => ?_⟩
  have hpos : 0 < unread.length := List.length_pos_iff.mpr fun hnil => hwait ⟨hn, hnil⟩
  omega

/-- The reader loop from its i-th call of recv on, with the calls of the handler. -/
def read (seg : Segmentation) (i : Nat) (unread : List UInt8) : List (List UInt8) :=
  match _hbuf : recv seg i 2 unread with
  | none => []
  | some (buf, unread') =>
    match unpackSize buf with
    -- recv(nil) raises a TypeError, and the thread ends
    | none => []
    | some size =>
      match _hmsg : recv seg (i + 1) size unread' with
      | none => []
      | some (msg, unread'') =>
        (if msg.length > 0 then [msg] else []) ++ read seg (i + 2) unread''
termination_by unread.length
decreasing_by
  have hshorter := (recv_shorter _hbuf).2 Nat.two_pos
  exact Nat.lt_of_le_of_lt (recv_shorter _hmsg).1 hshorter

/-- Messages in binary encoding that are sent one after the other. -/
def txAll (messages : List (List UInt8)) : List UInt8 :=
  (messages.map fun m => tx (.binary m)).flatten

end Aloof.Ruby.Tcp
