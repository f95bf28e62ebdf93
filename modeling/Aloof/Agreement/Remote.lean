import Aloof.Agreement.Command
import Aloof.Agreement.Response
import Aloof.C.TestServerRuns
import Aloof.Ruby.ClientProof

namespace Aloof.Agreement

open Framework C C.TestServer
open Ruby (invokeByte)
open Ruby.Client (State Action)

/-- A command that was handed to tx, and the call that it is of. -/
structure Sent where
  n : Nat
  type : Ruby.CommandType

def Sent.frame (c : Sent) : List UInt8 := Ruby.Command.encode ⟨true, c.n, c.type⟩

/-- The wire has the commands that main has not read, the oldest first; sent is history, and has all
of them. -/
structure World where
  client : State
  wire : List Sent
  server : StateHolder
  sent : List Sent

inductive Event where
  | client (a : Action)
  | serve (left : Leftover)

namespace World

def start : World := ⟨Ruby.Client.new, [], state, []⟩

/-- A step of the client. A frame of more than 65535 bytes, which tx sends behind a header that has
lost its top, is left out. -/
def act (w : World) : Action → Option World
  -- answers come from the server
  | .answer _ _ => none
  | .transmit type =>
    let c : Sent := ⟨w.client.invokeId, type⟩
    if c.frame.length ≤ 65535 then
      (Ruby.Client.step w.client (.transmit type)).map fun s =>
        { w with client := s, wire := w.wire ++ [c], sent := w.sent ++ [c] }
    else none
  | a => (Ruby.Client.step w.client a).map fun s => { w with client := s }

/-- A pass of the loop of main; what it writes is on its way to the client, who gets it whole: that
recv cuts a reply is left out. -/
def serve (left : Leftover) (w : World) : Option World :=
  match w.wire with
  | [] => none
  | c :: wire =>
    if h : c.frame.length ≤ 1024 then
      let r := TestServer.serve left w.server ⟨c.frame, h⟩
      let client : State :=
        match r.1 with
        | none => w.client
        | some bs =>
          { w.client with line := Function.update w.client.line c.n (.response bs) }
      some { w with client := client, wire := wire, server := r.2 }
    -- main reads no more
    else none

def step (w : World) : Event → Option World
  | .client a => w.act a
  | .serve left => w.serve left

/-- One client and the server, from the start of both. -/
def world : System World Event := ⟨start, step⟩

/-- What each event can do. -/
inductive Step (w : World) : Event → World → Prop where
  | transmit (type : Ruby.CommandType) (s : State)
      (fits : (Sent.mk w.client.invokeId type).frame.length ≤ 65535)
      (step : Ruby.Client.step w.client (.transmit type) = some s) :
    Step w (.client (.transmit type)) { w with
      client := s
      wire := w.wire ++ [⟨w.client.invokeId, type⟩]
      sent := w.sent ++ [⟨w.client.invokeId, type⟩] }
  | act (a : Action) (s : State) (own : ∀ n frame, a ≠ .answer n frame)
      (silent : ∀ type, a ≠ .transmit type) (step : Ruby.Client.step w.client a = some s) :
    Step w (.client a) { w with client := s }
  | ignore (left : Leftover) (c : Sent) (wire : List Sent) (first : w.wire = c :: wire)
      (fits : c.frame.length ≤ 1024)
      (silent : (TestServer.serve left w.server ⟨c.frame, fits⟩).1 = none) :
    Step w (.serve left) { w with
      wire := wire
      server := (TestServer.serve left w.server ⟨c.frame, fits⟩).2 }
  | reply (left : Leftover) (c : Sent) (wire : List Sent) (bs : List UInt8)
      (first : w.wire = c :: wire) (fits : c.frame.length ≤ 1024)
      (output : (TestServer.serve left w.server ⟨c.frame, fits⟩).1 = some bs) :
    Step w (.serve left) { w with
      client := { w.client with line := Function.update w.client.line c.n (.response bs) }
      wire := wire
      server := (TestServer.serve left w.server ⟨c.frame, fits⟩).2 }

theorem step_cases {w w' : World} {e : Event} (h : world.step w e = some w') : Step w e w' := by
  change step w e = some w' at h
  cases e with
  | client a =>
    change w.act a = some w' at h
    cases a with
    | answer n frame => cases h
    | transmit type =>
      simp only [act] at h
      split_ifs at h with hfits
      obtain ⟨s, hstep, rfl⟩ := Option.map_eq_some_iff.mp h
      exact .transmit type s hfits hstep
    | _ =>
      obtain ⟨s, hstep, rfl⟩ := Option.map_eq_some_iff.mp h
      exact .act _ s (by simp) (by simp) hstep
  | serve left =>
    change serve left w = some w' at h
    unfold serve at h
    split at h
    next => cases h
    next c wire hwire =>
      split_ifs at h with hfits
      cases hreply : (TestServer.serve left w.server ⟨c.frame, hfits⟩).1 with
      | none =>
        simp only [hreply] at h
        cases h
        exact .ignore left c wire hwire hfits hreply
      | some bs =>
        simp only [hreply] at h
        cases h
        exact .reply left c wire bs hwire hfits hreply

end World

section Replies

/-- What the store says to a command. -/
def response (c : Cells) : Body UInt32 → List UInt8 → Ruby.ResponseType
  | .read oid, _ =>
    match object oid with
    | .ok t => .read ⟨.success, some (shown (c t).1).toRuby⟩
    | .error e => .read ⟨.failure (reason e), none⟩
  | .write oid data, payload =>
    match taken oid data payload with
    | .ok _ => .write ⟨.success⟩
    | .error e => .write ⟨.failure (reason e)⟩

/-- What it says to the command in a frame. -/
def outcome (c : Cells) (frame : List UInt8) : Option Ruby.ResponseType :=
  match Grammar.request frame with
  | some (.command _ body payload) => some (response c body payload)
  | _ => none

theorem decode_of_base {bs tl : List UInt8} {msg : Ruby.Message}
    (h : Ruby.Base.decode bs = .ok (some msg, tl)) : Ruby.MessageDecoder.decode bs = some msg := by
  rw [Ruby.MessageDecoder.decode, h]

/-- The client decodes a reply of the store as what the store says. -/
theorem reply_decodes {c : Cells} {inv : UInt8} {body : Body UInt32} {payload bs : List UInt8}
    (h : reply c (.command inv body payload) = some bs) :
    (∃ tl, bs = 4 :: inv :: tl) ∧
    Ruby.MessageDecoder.decode bs = some (responseTo inv (response c body payload)) := by
  cases body with
  | read oid =>
    rw [reply] at h
    split_ifs at h
    rw [response]
    cases hobject : object oid with
    | ok t =>
      rw [hobject] at h
      cases h
      have hshort := Nat.le_trans (length_shown_le (c t)) (by decide : 518 ≤ 65535)
      have hvalue := getValue_decodes (shown (c t).1)
      rw [← datumOctets_eq (short_not_clipped hshort)] at hvalue
      exact ⟨⟨_, rfl⟩, decode_of_base (decode_read_success inv hvalue.whole)⟩
    | error e =>
      rw [hobject] at h
      cases h
      exact ⟨⟨_, rfl⟩, decode_of_base (decode_read_failure inv (getAccessResult_failure e []))⟩
  | write oid data =>
    rw [reply] at h
    split_ifs at h
    rw [response]
    cases htaken : taken oid data payload with
    | ok v =>
      rw [htaken] at h
      cases h
      exact ⟨⟨_, rfl⟩, decode_of_base (decode_write inv (getAccessResult_success []))⟩
    | error e =>
      rw [htaken] at h
      cases h
      exact ⟨⟨_, rfl⟩, decode_of_base (decode_write inv (getAccessResult_failure e []))⟩

/-- A reply to a command of the client is a Response that names it. -/
theorem Sent.reply_decodes (c : Sent) {cells : Cells} {bs : List UInt8}
    (h : store.answer cells c.frame = some bs) :
    Ruby.Client.echoes c.frame bs = true ∧ ∃ type, outcome cells c.frame = some type ∧
      Ruby.MessageDecoder.decode bs = some (.response ⟨true, c.n % 128, type⟩) := by
  obtain ⟨req, hreq, hreply⟩ := Option.bind_eq_some_iff.mp h
  have hframe := Ruby.Command.encode_eq ⟨true, c.n, c.type⟩
  cases req with
  | hello =>
    obtain ⟨tl, r, hhello, -⟩ := Grammar.request_eq_hello hreq
    rw [Sent.frame, hframe] at hhello
    cases hhello
  | command inv body payload =>
    obtain ⟨tl, hcommand, -⟩ := Grammar.request_eq_command hreq
    rw [Sent.frame, hframe] at hcommand
    obtain ⟨-, hinv⟩ := List.cons.inj hcommand
    obtain ⟨rfl, -⟩ := List.cons.inj hinv
    obtain ⟨⟨tl', hbs⟩, hdecode⟩ := Agreement.reply_decodes hreply
    refine ⟨?_, response cells body payload, by rw [outcome, hreq], ?_⟩
    · rw [hbs]
      exact Ruby.Client.echoes_reply c.n c.type tl'
    · rw [hdecode, responseTo_confirmed _ (isConfirmed_invokeByte true c.n),
        Ruby.invokeByte_and]

end Replies

end Aloof.Agreement
