import Aloof.Agreement.Command
import Aloof.Agreement.Response
import Aloof.Ruby.ClientCalls
import Aloof.Ruby.ClientOrigin

namespace Aloof.Agreement

open Framework C
open Ruby (invokeByte)
open Ruby.Client (State Action Returned ReportsVerdict client enabled)

/-- The write handler was called, and it returned true. -/
def HandlerAccepted {σ : Type} (srv : Server σ) (app : σ) (r : Outcome σ) : Prop :=
  ∃ write oid data inp, srv.write = some write ∧ Call.write oid data inp ∈ r.calls ∧
    (write app oid data inp).verdict = true

/-- Some server in some state appends this frame for a command, and accepts the write or not. -/
def Served (command frame : List UInt8) (accepted : Prop) : Prop :=
  ∃ (σ : Type) (srv : Server σ) (loc : Locals) (app : σ) (out : Stream)
    (h : command.length < 2^32),
    let r := srv.process loc app (Stream.initRo command h) out
    r.out.content = out.content ++ frame ∧ (accepted ↔ HandlerAccepted srv app r)

section Decode

theorem getAccessResult_failed {tl rest : List UInt8} {result : Ruby.AccessResult}
    (h : Ruby.Base.getAccessResult (1 :: tl) = .ok (result, rest)) : result ≠ .success := by
  rw [Ruby.Base.getAccessResult, Decoder.bind_ok (Ruby.InputCodec.getUint_small (by decide) tl)]
    at h
  obtain ⟨tag, t, -, hrun⟩ := Decoder.bind_eq_ok h
  cases hreason : Ruby.Base.accessResultReason[tag]? with
  | none =>
    rw [hreason] at hrun
    cases hrun
  | some reason =>
    rw [hreason] at hrun
    cases hrun
    simp

theorem decode_nil : Ruby.MessageDecoder.decode [] = none := by
  rw [Ruby.MessageDecoder.decode, Ruby.Base.decode]
  rfl

/-- A part of a write response that is decoded has the whole of its result. -/
theorem decode_write_part (inv : UInt8) (bs : List UInt8) (k : Nat) {msg : Ruby.Response}
    (h : Ruby.MessageDecoder.decode ((4 :: inv :: 0 :: bs).take k) = some (.response msg)) :
    ∃ j result rest, Ruby.Base.getAccessResult (bs.take j) = .ok (result, rest) ∧
      msg.type = .write ⟨result⟩ := by
  match k with
  | 0 =>
    rw [List.take_zero, decode_nil] at h
    cases h
  | 1 =>
    rw [Ruby.MessageDecoder.decode, List.take_succ_cons, Ruby.Base.decode_response] at h
    cases h
  | 2 =>
    rw [Ruby.MessageDecoder.decode, List.take_succ_cons, Ruby.Base.decode_response] at h
    cases h
  | j + 3 =>
    rw [Ruby.MessageDecoder.decode, List.take_succ_cons, List.take_succ_cons,
      List.take_succ_cons] at h
    cases hresult : Ruby.Base.getAccessResult (bs.take j) with
    | ok r =>
      rw [decode_write inv hresult] at h
      cases h
      exact ⟨j, r.1, r.2, hresult, rfl⟩
    | error e =>
      have hbody : Ruby.WriteResponse.decode (bs.take j) = .error e := Decoder.bind_error hresult
      have htype : Ruby.Response.decodeType 0 (bs.take j) = .error e := Decoder.bind_error hbody
      have hdecode : Ruby.Base.decode (4 :: inv :: 0 :: bs.take j) = .error e :=
        decode_error inv (by decide) htype
      rw [hdecode] at h
      cases h

theorem decode_writeReply {σ : Type} (loc : Locals) (inv : UInt8) (w : WriteResult σ) (k : Nat)
    {msg : Ruby.Response} (h : Ruby.MessageDecoder.decode
      ((Server.writeReply loc inv w).take k) = some (.response msg)) :
    ∃ result, msg.type = .write ⟨result⟩ ∧ (result = .success ↔ w.verdict = true) := by
  obtain ⟨j, result, rest, hresult, htype⟩ := decode_write_part inv _ k h
  refine ⟨result, htype, ?_⟩
  cases j with
  | zero => cases hresult
  | succ j =>
    cases hv : w.verdict with
    | true =>
      rw [hv, if_pos rfl, List.take_succ_cons, getAccessResult_success] at hresult
      cases hresult
      exact iff_of_true rfl rfl
    | false =>
      rw [hv, if_neg Bool.false_ne_true, List.take_succ_cons] at hresult
      exact iff_of_false (getAccessResult_failed hresult) Bool.false_ne_true

end Decode

section Serve

theorem body_of_write {tl rest : List UInt8} {b : Body UInt32}
    (h : Grammar.body (0 :: tl) = .ok (b, rest)) : ∃ oid data, b = .write oid data := by
  rw [Grammar.body, Decoder.bind_ok (Grammar.octet_cons _ _), if_pos (by decide)] at h
  obtain ⟨oid, _, -, hrun⟩ := Decoder.bind_eq_ok h
  obtain ⟨data, _, -, hrun⟩ := Decoder.bind_eq_ok hrun
  cases hrun
  exact ⟨oid, data, rfl⟩

theorem write_type_encode (type : Ruby.WriteCommand) :
    ∃ tl, (Ruby.CommandType.write type).encode = 0 :: tl := by
  rw [Ruby.CommandType.encode, Ruby.WriteCommand.encode, Ruby.OutputCodec.putUint_eq]
  exact ⟨_, rfl⟩

/-- The call of a write handler, which a server without one does not make. -/
theorem handlerAccepted_write {σ : Type} (srv : Server σ) {app app' : σ} {oid : UInt32}
    {data : DataRx} {s inp out : Stream} : HandlerAccepted srv app
      ⟨app', inp, out, if srv.write.isSome then [.write oid data s] else []⟩ ↔
      (srv.writeHandler app oid data s).verdict = true := by
  cases hwrite : srv.write with
  | none =>
    have hverdict : (srv.writeHandler app oid data s).verdict = false := by
      rw [Server.writeHandler, hwrite]
      rfl
    refine iff_of_false ?_ (by rw [hverdict]; exact Bool.false_ne_true)
    intro h
    obtain ⟨write, _, _, _, hsome, -⟩ := h
    cases hwrite.symm.trans hsome
  | some write =>
    rw [Server.writeHandler_of_some hwrite]
    constructor
    · intro h
      obtain ⟨write', oid', data', s', hsome, hcall, hverdict⟩ := h
      cases hwrite.symm.trans hsome
      cases List.mem_singleton.mp hcall
      exact hverdict
    · intro hverdict
      exact ⟨write, oid, data, s, hwrite, List.mem_singleton_self _, hverdict⟩

/-- The client decodes a write response to a write, with a success exactly for an accepted one. -/
theorem served_write {n : Nat} {type : Ruby.WriteCommand} {frame : List UInt8} {accepted : Prop}
    {msg : Ruby.Response}
    (h : Served (Ruby.Command.encode ⟨true, n, .write type⟩) frame accepted)
    (hmsg : Ruby.MessageDecoder.decode frame = some (.response msg)) :
    ∃ result, msg.type = .write ⟨result⟩ ∧ (result = .success ↔ accepted) := by
  obtain ⟨σ, srv, loc, app, out, hlen, hframe, haccepted⟩ := h
  obtain ⟨tl, htl⟩ := write_type_encode type
  have hrest := (Stream.rest_initRo hlen).trans (Ruby.Command.encode_eq _)
  rw [htl] at hrest
  have hrollback := Server.rollback_confirmed (σ := σ) (isConfirmed_invokeByte true n)
    (Stream.initRo _ hlen).pos
  cases hbody : Grammar.body (0 :: tl) with
  | error e =>
    obtain ⟨hrun, hskip⟩ := srv.process_command loc app _ _ out hrest
    rw [← hskip] at hbody
    obtain ⟨k, -, hnone⟩ := srv.processBody_error loc app (invokeByte true n) _ out hbody
    rw [hrun, hrollback, hnone] at hframe
    have hnil : frame = [] := List.append_cancel_left (hframe.symm.trans (List.append_nil _).symm)
    rw [hnil, decode_nil] at hmsg
    cases hmsg
  | ok r =>
    obtain ⟨b, payload⟩ := r
    obtain ⟨oid, data, rfl⟩ := body_of_write hbody
    obtain ⟨hrun, -⟩ := srv.process_write loc app _ _ out hrest hbody
    rw [hrollback, srv.respondWrite_eq] at hrun
    rw [hrun] at hframe haccepted
    rw [Stream.content_push] at hframe
    have hreply := List.append_cancel_left hframe
    rw [← hreply] at hmsg
    obtain ⟨result, htype, hverdict⟩ := decode_writeReply loc _ _ _ hmsg
    exact ⟨result, htype, hverdict.trans ((handlerAccepted_write srv).symm.trans haccepted.symm)⟩

end Serve

/-- The frames on the line are those of these calls and the answers of servers to them. -/
structure Honest (issued : Nat → Ruby.CommandType) (accepted : Nat → Prop) (s : State)
    (a : Action) : Prop where
  transmit : ∀ type, a = .transmit type → issued s.invokeId = type
  answer : ∀ n frame command, a = .answer n frame → s.line n = .command command →
    Served command frame (accepted n)

/-- A Response to a write says whether it was accepted. -/
def Tells (issued : Nat → Ruby.CommandType) (accepted : Nat → Prop) (n : Nat)
    (msg : Ruby.Response) : Prop :=
  ∀ type, issued n = .write type →
    ∃ result, msg.type = .write ⟨result⟩ ∧ (result = .success ↔ accepted n)

theorem honest_run {issued : Nat → Ruby.CommandType} {accepted : Nat → Prop} {s : State}
    (h : System.Path client (Honest issued accepted) client.init s) :
    Ruby.Client.Vouched (Tells issued accepted) s ∧ Ruby.Client.Issued issued s := by
  refine Ruby.Client.inv_invariant.path (Q := fun s =>
    Ruby.Client.Vouched (Tells issued accepted) s ∧ Ruby.Client.Issued issued s) .nil
    ⟨Ruby.Client.vouched_new, fun n command hn => by cases hn⟩ ?_ h
  rintro s a s' - ⟨hvouched, hissued⟩ hhonest hstep
  have hcases := Ruby.Client.step_cases hstep
  refine ⟨hvouched.step ?_ hcases, hissued.step hhonest.transmit hcases⟩
  intro n frame msg heq hmsg type htype
  subst heq
  cases hcases with
  | answer n command frame hline hecho hresponse =>
    have hserved := hhonest.answer n frame command rfl hline
    rw [hissued n command hline, htype] at hserved
    exact served_write hserved hmsg

/-- The Response that a write returns in such a run says whether it was accepted. -/
theorem honest_returned {issued : Nat → Ruby.CommandType} {accepted : Nat → Prop} {s : State}
    (h : System.Path client (Honest issued accepted) client.init s) {n : Nat} {reply : Ruby.Reply}
    (hreturned : s.returned n = some (some reply)) : Tells issued accepted n reply.msg := by
  have hsorted := (Ruby.Client.inv_invariant.reachable (h.reachable .nil)).sorted
  have htells := (honest_run h).1.returned n reply hreturned
  rwa [hsorted.returned n reply hreturned] at htells

/-- A write of an object in the table, of a value that its type takes. -/
structure WriteCall where
  table : Ruby.Client.ObjectTable
  name : String
  argument : DataType → Option Ruby.Value
  obj : Ruby.Client.ObjectDef
  value : Ruby.Value
  known : table.lookupName name = some obj
  taken : argument obj.type = some value

def WriteCall.type (c : WriteCall) : Ruby.CommandType := .write ⟨c.obj.oid, c.value⟩

/-- What the call does when transport returns resp. -/
def WriteCall.result (c : WriteCall) (invokeId : Nat) (resp : Returned) :
    Except Ruby.Client.Exception Unit :=
  Ruby.Client.write c.table c.name invokeId (fun _ => resp) c.argument

theorem WriteCall.result_eq (c : WriteCall) (invokeId : Nat) (resp : Returned) :
    c.result invokeId resp = Ruby.Client.writeResult resp :=
  Ruby.Client.write_eq c.known invokeId (fun _ => resp) c.taken

/-- What transport returns, nil if it gave up. -/
def returned : Option Ruby.Reply → Returned
  | some reply => .response reply.msg
  | none => .nil

section Samples

/-- The first call of a client, when its answer comes while it waits. -/
theorem first_call {type : Ruby.CommandType} (accepted : Nat → Prop) {tl : List UInt8}
    (msg : Ruby.Response)
    (hserved : Served (Ruby.Command.encode ⟨true, 0, type⟩) (4 :: invokeByte true 0 :: tl)
      (accepted 0))
    (hmsg : Ruby.MessageDecoder.decode (4 :: invokeByte true 0 :: tl) = some (.response msg))
    (hid : msg.invokeId = 0) :
    ∃ s, System.Path client (Honest (fun _ => type) accepted) client.init s ∧
      s.returned 0 = some (some ⟨0, msg⟩) := by
  have hresponse : Ruby.Client.isResponse (4 :: invokeByte true 0 :: tl) = true := by
    rw [Ruby.Client.isResponse, hmsg]
  have hother {s : State} {a : Action} (htransmit : ∀ type, a ≠ .transmit type)
      (hanswer : ∀ n frame, a ≠ .answer n frame) : Honest (fun _ => type) accepted s a :=
    ⟨fun type h => (htransmit type h).elim, fun n frame _ h => (hanswer n frame h).elim⟩
  refine ⟨_, .cons ?_ (enabled (s := Ruby.Client.new) (.transmit type rfl)) <|
    .cons (hother (by simp) (by simp)) (enabled (.register 0 rfl)) <|
    .cons ?_ (enabled (.answer 0 _ _ rfl (Ruby.Client.echoes_reply 0 type tl) hresponse)) <|
    .cons (hother (by simp) (by simp)) (enabled (.arrive 0 _ rfl rfl)) <|
    .cons (hother (by simp) (by simp)) (enabled (.decode 0 _ msg rfl hmsg)) <|
    .cons (hother (by simp) (by simp)) (enabled (.find ⟨0, msg⟩ 0 rfl ?_)) <|
    .cons (hother (by simp) (by simp)) (enabled (.push ⟨0, msg⟩ 0 rfl)) <|
    .cons (hother (by simp) (by simp)) (enabled (.pop 0 ⟨0, msg⟩ [] rfl ?_)) <|
    .cons (hother (by simp) (by simp)) (enabled (.unregister 0 (some ⟨0, msg⟩) rfl)) .nil, ?_⟩
  · constructor
    · intro _ h
      cases h
      rfl
    · intro _ _ _ h
      cases h
  · constructor
    · intro _ h
      cases h
    · intro n frame command h hline
      cases h
      have hcommand : Ruby.Command.encode ⟨true, 0, type⟩ = command := by
        simpa [Ruby.Client.new] using hline
      rwa [hcommand] at hserved
  · simp [hid]
  · simp
  · simp

/-- A write of an u8 to an object of the meter, which refuses those to 0. -/
def valveCall (oid : Nat) : WriteCall where
  table := [("valve", ⟨oid, "valve", .u8⟩)]
  name := "valve"
  argument type := if type = .u8 then some (.u8 1) else none
  obj := ⟨oid, "valve", .u8⟩
  value := .u8 1
  known := rfl
  taken := rfl

theorem meter_served {command frame : List UInt8} (oid : UInt32) (out : Stream)
    (h : command.length < 2^32)
    (hframe : (Server.meter.process Server.zeroed () (Stream.initRo command h) out).out.content =
      out.content ++ frame)
    (hcalls : ∃ data inp, (Server.meter.process Server.zeroed () (Stream.initRo command h)
      out).calls = [.write oid data inp]) : Served command frame (oid ≠ 0) := by
  refine ⟨Unit, Server.meter, Server.zeroed, (), out, h, hframe, ?_⟩
  obtain ⟨data, inp, hcalls⟩ := hcalls
  constructor
  · intro hoid
    exact ⟨Server.meterWrite, oid, data, inp, rfl, by simp [hcalls], bne_iff_ne.mpr hoid⟩
  · intro h
    obtain ⟨write, oid', data', inp', ⟨⟩, hcall, hverdict⟩ := h
    rw [hcalls] at hcall
    cases List.mem_singleton.mp hcall
    exact bne_iff_ne.mp hverdict

end Samples

/-- Client#write takes every Response for a success. -/
theorem write_reports_verdict (c : WriteCall) :
    (∀ invokeId resp,
      ReportsVerdict Ruby.Client.writeVerdict resp (c.result invokeId resp) ↔
        resp ≠ .error ∧ ∀ msg, resp = .response msg → msg.type = .write ⟨.success⟩) ∧
    ∀ issued accepted s, System.Path client (Honest issued accepted) client.init s →
      ∀ n resp, issued n = c.type → s.returned n = some resp →
        (ReportsVerdict Ruby.Client.writeVerdict (returned resp) (c.result n (returned resp)) ∧
          (c.result n (returned resp) = .ok () → accepted n) ↔ resp = none ∨ accepted n) := by
  have hreports (invokeId : Nat) (resp : Returned) :
      ReportsVerdict Ruby.Client.writeVerdict resp (c.result invokeId resp) ↔
        resp ≠ .error ∧ ∀ msg, resp = .response msg → msg.type = .write ⟨.success⟩ := by
    rw [c.result_eq]
    exact Ruby.Client.writeResult_reports resp
  refine ⟨hreports, ?_⟩
  intro issued accepted s hpath n resp hissued hreturned
  rw [hreports, c.result_eq]
  cases resp with
  | none =>
    refine iff_of_true ⟨⟨Returned.noConfusion, ?_⟩, ?_⟩ (Or.inl rfl)
    · intro msg h
      cases h
    · intro h
      cases h
  | some reply =>
    obtain ⟨result, htype, hsuccess⟩ := honest_returned hpath hreturned _ hissued
    have hiff : (∀ msg, returned (some reply) = .response msg → msg.type = .write ⟨.success⟩) ↔
        accepted n := by
      rw [← hsuccess]
      constructor
      · intro h
        have hmsg := htype.symm.trans (h reply.msg rfl)
        cases hmsg
        rfl
      · rintro rfl msg ⟨⟩
        exact htype
    rw [hiff]
    constructor
    · intro h
      obtain ⟨⟨-, haccepted⟩, -⟩ := h
      exact Or.inr haccepted
    · intro h
      have haccepted := h.resolve_left (Option.some_ne_none reply)
      exact ⟨⟨Returned.noConfusion, haccepted⟩, fun _ => haccepted⟩

/-- The meter takes the write, and the call returns. -/
theorem write_reports_verdict_taken :
    ∃ s reply, client.Reachable s ∧ s.returned 0 = some (some reply) ∧
      ReportsVerdict Ruby.Client.writeVerdict (.response reply.msg)
        ((valveCall 5).result 0 (.response reply.msg)) ∧
      (valveCall 5).result 0 (.response reply.msg) = .ok () := by
  have hserved : Served (Ruby.Command.encode ⟨true, 0, (valveCall 5).type⟩) [4, 0x80, 0, 0]
      ((5 : UInt32) ≠ 0) := by
    have hencode : Ruby.Command.encode ⟨true, 0, (valveCall 5).type⟩ =
        [3, 0x80, 0, 5, 1, 1] := by
      decide
    rw [hencode]
    exact meter_served 5 (Server.streamAt [0, 0, 0, 0, 0, 0, 0, 0] (by decide) 0) (by decide)
      (by decide) ⟨_, _, rfl⟩
  obtain ⟨s, hpath, hreturned⟩ := first_call (fun _ => (5 : UInt32) ≠ 0)
    ⟨true, 0, .write ⟨.success⟩⟩ hserved (by
      rw [Ruby.MessageDecoder.decode, Ruby.Base.decode_response]
      rfl) rfl
  have h := ((write_reports_verdict (valveCall 5)).2 _ _ s hpath 0 _ rfl hreturned).mpr
    (Or.inr (by decide))
  exact ⟨s, _, hpath.reachable .nil, hreturned, h.1, rfl⟩

/-- The meter refuses the write, and the call returns nevertheless. -/
theorem write_reports_verdict_refused :
    ∃ s, System.Path client (Honest (fun _ => (valveCall 0).type) fun _ => (0 : UInt32) ≠ 0)
        client.init s ∧
      let msg : Ruby.Response := ⟨true, 0, .write ⟨.failure .accessDenied⟩⟩
      s.returned 0 = some (some ⟨0, msg⟩) ∧
      (valveCall 0).result 0 (.response msg) = .ok () ∧
      ¬ ReportsVerdict Ruby.Client.writeVerdict (.response msg)
        ((valveCall 0).result 0 (.response msg)) := by
  have hserved : Served (Ruby.Command.encode ⟨true, 0, (valveCall 0).type⟩) [4, 0x80, 0, 1, 1]
      ((0 : UInt32) ≠ 0) := by
    have hencode : Ruby.Command.encode ⟨true, 0, (valveCall 0).type⟩ =
        [3, 0x80, 0, 0, 1, 1] := by
      decide
    rw [hencode]
    exact meter_served 0 (Server.streamAt [0, 0, 0, 0, 0, 0, 0, 0] (by decide) 0) (by decide)
      (by decide) ⟨_, _, rfl⟩
  obtain ⟨s, hpath, hreturned⟩ := first_call (fun _ => (0 : UInt32) ≠ 0)
    ⟨true, 0, .write ⟨.failure .accessDenied⟩⟩ hserved (by
      rw [Ruby.MessageDecoder.decode, Ruby.Base.decode_response]
      rfl) rfl
  refine ⟨s, hpath, hreturned, rfl, fun hreports => ?_⟩
  cases hreports.failure _ .accessDenied rfl rfl

end Aloof.Agreement
