import Aloof.Agreement.Alert
import Aloof.C.ServerRequest

namespace Aloof.Agreement

open Framework C

/-- No HELLO and no COMMAND. -/
def Quiet (bs : List UInt8) : Prop := bs.head? ≠ some 0 ∧ bs.head? ≠ some 3

theorem quiet_nil : Quiet [] := ⟨nofun, nofun⟩

theorem quiet_take {b : UInt8} (h0 : b ≠ 0) (h3 : b ≠ 3) (bs : List UInt8) (n : Nat) :
    Quiet ((b :: bs).take n) := by
  cases n with
  | zero => exact quiet_nil
  | succ n => exact ⟨fun h => h0 (Option.some.inj h), fun h => h3 (Option.some.inj h)⟩

theorem Quiet.request {bs : List UInt8} (h : Quiet bs) : Grammar.request bs = none := by
  rw [Grammar.request, if_neg h.1, if_neg h.2]

variable {σ : Type} (srv : Server σ) (loc : Locals) (app : σ) (inp out : Stream)

theorem quiet_push (hout : out.pos = 0) {b : UInt8} (h0 : b ≠ 0) (h3 : b ≠ 3) (bs : List UInt8) :
    Quiet (out.push (b :: bs)).content := by
  rw [Stream.content_push, Server.content_eq_nil hout, List.nil_append]
  exact quiet_take h0 h3 bs _

/-- More output behind a first byte. -/
theorem quiet_writes (hout : out.pos = 0) {b : UInt8} (h0 : b ≠ 0) (h3 : b ≠ 3) {t : Stream}
    (h : Writes (out.push [b]) t) : Quiet t.content := by
  obtain ⟨bs, hbs, rfl⟩ := h.append
  rw [Stream.content_append hbs, Stream.content_push, Server.content_eq_nil hout, List.nil_append]
  rw [Stream.room_push] at hbs
  cases hroom : out.room with
  | zero =>
    rw [hroom, Nat.zero_sub] at hbs
    rw [List.length_eq_zero_iff.mp (Nat.le_zero.mp hbs)]
    exact quiet_nil
  | succ room =>
    rw [List.take_succ_cons, List.take_nil]
    exact ⟨fun h => h0 (Option.some.inj h), fun h => h3 (Option.some.inj h)⟩

theorem quiet_rollback {inv : UInt8} (hinp : inp.pos = 0) {r : Outcome σ}
    (h : Quiet r.out.content) : Quiet (Server.rollback inv inp.pos r).out.content := by
  cases hinv : Server.isConfirmed inv with
  | true => rwa [Server.rollback_confirmed hinv]
  | false =>
    rw [hinp, Server.content_rollback hinv]
    exact quiet_nil

/-- What a server sends is a response, a HELLO HELLO, a first part of one or nothing. -/
theorem process_quiet (hread : ∀ read, srv.read = some read → Server.AppendOnly read)
    (hinp : inp.pos = 0) (hout : out.pos = 0) :
    Quiet (srv.process loc app inp out).out.content := by
  have hnone : Quiet out.content := Server.content_eq_nil hout ▸ quiet_nil
  obtain ⟨bs, hrest⟩ : ∃ bs, inp.rest = bs := ⟨_, rfl⟩
  cases Server.front bs with
  | nil =>
    rw [srv.process_nil loc app inp out hrest]
    exact hnone
  | hello tl =>
    rw [srv.process_hello loc app inp out hrest, Server.processHello]
    dsimp only
    split_ifs
    · rw [Server.void_putU8 (messageTypeCode .helloHello) out]
      apply quiet_writes out hout (by decide : (1 : UInt8) ≠ 0) (by decide)
      have hstation := (Oer.putU8_appends (stationCode .server)).writes (out.push [1])
      refine (hstation.trans ((Oer.putUint_appends srv.version).writes _)).trans ?_
      exact (Oer.putU32_appends srv.features).writes _
    · exact hnone
  | truncated =>
    rw [srv.process_truncated loc app inp out hrest]
    exact quiet_rollback inp hinp hnone
  | command inv tl =>
    obtain ⟨hrun, -⟩ := srv.process_command loc app inv inp out hrest
    obtain ⟨more, halike, hmore⟩ := srv.processBody_out loc app inv (inp.skip 2) out
      (srv.readHandler_appendOnly hread)
    rw [hrun]
    apply quiet_rollback inp hinp
    rw [halike.content]
    cases hbody : Grammar.body (inp.skip 2).rest with
    | error e =>
      rw [hbody] at hmore
      rw [show more = [] from hmore, Stream.push_nil]
      exact hnone
    | ok r =>
      rw [hbody] at hmore
      obtain ⟨tl', rfl⟩ := hmore
      exact quiet_push out hout (by decide) (by decide) _
  | other b tl h0 h3 =>
    rw [srv.process_other loc app inp out hrest h0 h3]
    exact hnone

theorem alert_quiet (narrow : Server.Narrowing) (id : UInt32) (v : Datum Bytes)
    (hout : out.pos = 0) : Quiet (Server.alert narrow id v out).2.content := by
  have happends := alert_appends narrow id v
  by_cases hs : out.Fits (alertOctets id (carried narrow v)).length
  · have hfirst := quiet_push out hout (by decide : (5 : UInt8) ≠ 0) (by decide)
      (Oer.uintOctets id ++ datumOctets (carried narrow v))
    rw [happends.ok hs, ← Stream.push_of_le hs.2]
    exact hfirst
  · obtain ⟨-, n, hn, hs'⟩ := happends.not_ok hs
    rw [hs', Stream.content_append (by rw [List.length_take]; omega),
      Server.content_eq_nil hout, List.nil_append]
    exact quiet_take (by decide) (by decide) _ n

/-- A server to which this is sent calls no handler, changes nothing and sends nothing. -/
def Unheard (sent : List UInt8) : Prop :=
  ∀ (τ : Type) (srv : Server τ) (loc : Locals) (app : τ) (out : Stream), out.pos = 0 →
    ∀ h : sent.length < 2^32,
      let r := srv.process loc app (Stream.initRo sent h) out
      r.app = app ∧ r.calls = [] ∧ r.out.content = []

theorem Quiet.unheard {sent : List UInt8} (h : Quiet sent) : Unheard sent := by
  intro τ srv loc app out hout hlength
  apply srv.process_silent loc app _ out rfl hout
  rw [Stream.rest_initRo hlength]
  exact h.request

/-- No server answers to what a server sends, be it an answer or an alert. -/
theorem no_echo (hread : ∀ read, srv.read = some read → Server.AppendOnly read)
    (hinp : inp.pos = 0) (hout : out.pos = 0) :
    Unheard (srv.process loc app inp out).out.content ∧
    ∀ narrow id v, Unheard (Server.alert narrow id v out).2.content :=
  ⟨(process_quiet srv loc app inp out hread hinp hout).unheard,
    fun narrow id v => (alert_quiet out narrow id v hout).unheard⟩

/-- The answer to a read. -/
theorem no_echo_meter :
    let inp := Stream.initRo [3, 0x80, 1, 5] (by decide)
    let out := Server.streamAt [0, 0, 0, 0, 0, 0, 0, 0] (by decide) 0
    (Server.meter.process Server.zeroed () inp out).out.content = [4, 0x80, 1, 0, 1, 7] ∧
    Unheard [4, 0x80, 1, 0, 1, 7] := by
  intro inp out
  have hcontent : (Server.meter.process Server.zeroed () inp out).out.content =
      [4, 0x80, 1, 0, 1, 7] := by
    decide
  have h := (no_echo Server.meter Server.zeroed () inp out
    (fun _ => Server.meter_appendOnly) rfl rfl).1
  exact ⟨hcontent, hcontent ▸ h⟩

end Aloof.Agreement
