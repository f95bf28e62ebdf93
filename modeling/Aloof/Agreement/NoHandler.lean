import Aloof.Agreement.Response

namespace Aloof.Agreement

open Framework C

def commandType {σ : Type} : Body σ → CommandType
  | .write _ _ => .write
  | .read _ => .read

/-- The handler that the command needs is NULL. -/
def Unhandled {σ τ : Type} (srv : Server σ) : Body τ → Prop
  | .write _ _ => srv.write = none
  | .read _ => srv.read = none

/-- All of a written string is there. -/
def PayloadThere (b : Body UInt32) (rest : List UInt8) : Prop :=
  match b with
  | .write _ data => ∀ size, data.string? = some size → size.toNat ≤ rest.length
  | .read _ => True

/-- The response of the kind of the command that says what ALOOF_ACCESS_ERROR_UNKNOWN says. -/
def unknownType {σ : Type} : Body σ → Ruby.ResponseType
  | .write _ _ => .write ⟨.failure (reason .unknown)⟩
  | .read _ => .read ⟨.failure (reason .unknown), none⟩

/-- All the bytes that were added to the output are the failure to the command. -/
def Reported {σ : Type} (out out' : Stream) (inv : UInt8) (b : Body σ) : Prop :=
  ∃ bs, out'.content = out.content ++ 4 :: bs ∧
    Ruby.Response.decode bs = .ok (some (responseTo inv (unknownType b)), [])

theorem response_of_decode {bs : List UInt8} {r : Option Ruby.Message × List UInt8} :
    Ruby.Response.decode bs = .ok r ↔ Ruby.Base.decode (4 :: bs) = .ok r := by
  rw [Ruby.Base.decode_response]

/-- With the mark of success in front, no response to a read reports a failure. -/
theorem not_failure_of_success (inv : UInt8) (bs tl : List UInt8) (why : Ruby.Reason) :
    Ruby.Response.decode (inv :: 1 :: 0 :: bs) ≠
      .ok (some (responseTo inv (.read ⟨.failure why, none⟩)), tl) := by
  intro h
  rw [response_of_decode] at h
  cases hv : Ruby.Base.getValue bs with
  | ok r =>
    rw [decode_read_success inv hv] at h
    cases h
  | error e =>
    have htype : Ruby.ReadResponse.decode (0 :: bs) = .error e := by
      rw [Ruby.ReadResponse.decode, Decoder.bind_ok (getAccessResult_success bs)]
      exact Decoder.bind_error hv
    have hdecode : Ruby.Base.decode (4 :: inv :: 1 :: 0 :: bs) = .error e :=
      decode_error inv (by decide) (Decoder.bind_error htype)
    rw [hdecode] at h
    cases h

variable {σ : Type} (srv : Server σ) (loc : Locals) (app : σ) (inv : UInt8) (inp out : Stream)

theorem reported_write {oid : UInt32} {data : Datum UInt32} {tl rest : List UInt8}
    (hnull : srv.write = none) (hinv : Server.isConfirmed inv = true)
    (hrest : inp.rest = 3 :: inv :: tl) (hbody : Grammar.body tl = .ok (.write oid data, rest))
    (hroom : 5 ≤ out.room) :
    Reported out (srv.process loc app inp out).out inv (.write oid data : Body UInt32) := by
  have hreply : (srv.process loc app inp out).out = out.push [4, inv, 0, 1, 0] := by
    rw [(srv.process_write loc app inv inp out hrest hbody).1, Server.rollback_confirmed hinv,
      Server.respondWrite_eq, Server.writeHandler, hnull]
    rfl
  refine ⟨[inv, 0, 1, 0], ?_, ?_⟩
  · rw [hreply, Stream.content_push, List.take_of_length_le hroom]
  · rw [response_of_decode]
    exact decode_write inv (getAccessResult_failure .unknown [])

/-- The mark of success stays in front of the failure. -/
theorem not_reported_read {oid : UInt32} {tl rest : List UInt8} (hnull : srv.read = none)
    (hinv : Server.isConfirmed inv = true) (hrest : inp.rest = 3 :: inv :: tl)
    (hbody : Grammar.body tl = .ok (.read oid, rest)) (hroom : 5 ≤ out.room) :
    ¬ Reported out (srv.process loc app inp out).out inv (.read oid : Body UInt32) := by
  have hreply : (srv.process loc app inp out).out = out.push [4, inv, 1, 0, 1, 0] := by
    rw [(srv.process_read loc app inv inp out hrest hbody).1, Server.rollback_confirmed hinv,
      Server.respondRead_eq, Server.readHandler, hnull]
    exact Stream.push_push out [4, inv, 1, 0] [1, 0]
  obtain ⟨n, hn⟩ := Nat.exists_eq_add_of_le' hroom
  intro h
  obtain ⟨bs, hcontent, hdecode⟩ := h
  rw [hreply, Stream.content_push, hn] at hcontent
  have hbs : inv :: 1 :: 0 :: [1, 0].take (n + 1) = bs :=
    (List.cons.inj (List.append_cancel_left hcontent)).2
  rw [← hbs] at hdecode
  exact not_failure_of_success inv _ _ _ hdecode

/-- A write without a handler fails as it should. A read without a handler does not: the client
is told of a success, with the failure for a value. -/
theorem unhandled_reported {b : Body UInt32} {tl rest : List UInt8} (hnull : Unhandled srv b)
    (hinv : Server.isConfirmed inv = true) (hrest : inp.rest = 3 :: inv :: tl)
    (hbody : Grammar.body tl = .ok (b, rest)) (hthere : PayloadThere b rest)
    (hroom : 5 ≤ out.room) :
    Reported out (srv.process loc app inp out).out inv b ↔ commandType b = .write := by
  cases b with
  | write oid data =>
    exact iff_of_true (reported_write srv loc app inv inp out hnull hinv hrest hbody hroom) rfl
  | read oid =>
    refine iff_of_false (not_reported_read srv loc app inv inp out hnull hinv hrest hbody hroom) ?_
    intro h
    cases h

/-- A server that only says hello. -/
def bare : Server Unit := Server.init none none

def queued : Stream := Server.streamAt [9, 0, 0, 0, 0, 0, 0, 0] (by decide) 1

theorem unhandled_reported_write : Reported queued
      (bare.process Server.zeroed () (Server.streamAt [3, 0x81, 0, 5, 1, 66] (by decide) 0)
        queued).out 0x81 (.write 5 (.u8 66) : Body UInt32) :=
  Iff.mpr (unhandled_reported bare Server.zeroed () 0x81
    (Server.streamAt [3, 0x81, 0, 5, 1, 66] (by decide) 0) queued rfl rfl
    (show _ = 3 :: 0x81 :: [0, 5, 1, 66] from rfl)
    (show Grammar.body [0, 5, 1, 66] = .ok (.write 5 (.u8 66), []) from rfl)
    (fun _ h => nomatch h) (by decide)) rfl

/-- The client of a server without a read handler is told that the object holds 0. -/
theorem unhandled_reported_read :
    let inp := Server.streamAt [3, 0x81, 1, 5] (by decide) 0
    let out' := (bare.process Server.zeroed () inp queued).out
    out'.content = queued.content ++ [4, 0x81, 1, 0, 1, 0] ∧
    Ruby.Base.decode [4, 0x81, 1, 0, 1, 0] =
      .ok (some (responseTo 0x81 (.read ⟨.success, some (.u8 0)⟩)), []) ∧
    ¬ Reported queued out' 0x81 (.read 5 : Body UInt32) := by
  intro inp out'
  have hvalue : Ruby.Base.getValue [1, 0] = .ok (.u8 0, []) := rfl
  exact ⟨by decide, decode_read_success 0x81 hvalue,
    not_reported_read bare Server.zeroed () 0x81 inp queued rfl rfl
      (show _ = 3 :: 0x81 :: [1, 5] from rfl)
      (show Grammar.body [1, 5] = .ok (.read 5, []) from rfl) (by decide)⟩

end Aloof.Agreement
