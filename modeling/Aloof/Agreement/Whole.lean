import Aloof.Agreement.Alert
import Aloof.Agreement.Response

namespace Aloof.Agreement

open Framework C

/-- One response message and nothing else. -/
def Complete (bs : List UInt8) : Prop :=
  ∃ msg, Ruby.Base.decode bs = .ok (some (.response msg), [])

/-- The output holds what it held, with one response message after it or nothing. -/
def WholeOrNothing (out out' : Stream) : Prop :=
  ∃ bs, out'.content = out.content ++ bs ∧ (bs = [] ∨ Complete bs)

theorem wholeOrNothing_iff {out out' : Stream} {bs : List UInt8}
    (h : out'.content = out.content ++ bs) :
    WholeOrNothing out out' ↔ bs = [] ∨ Complete bs := by
  constructor
  · rintro ⟨bs', hbs', hwhole⟩
    rw [h] at hbs'
    rwa [List.append_cancel_left hbs']
  · exact fun hwhole => ⟨bs, h, hwhole⟩

theorem not_complete_of_error {bs : List UInt8} {e : Ruby.Error}
    (h : Ruby.Base.decode bs = .error e) : ¬ Complete bs := by
  rintro ⟨msg, hmsg⟩
  rw [h] at hmsg
  cases hmsg

theorem not_complete_short (inv : UInt8) :
    ¬ Complete [4] ∧ ¬ Complete [4, inv] ∧ ¬ Complete [4, inv, 0] ∧ ¬ Complete [4, inv, 1] ∧
    ¬ Complete [4, inv, 0, 1] ∧ ¬ Complete [4, inv, 1, 1] := by
  refine ⟨?_, ?_, ?_, ?_, ?_, ?_⟩
  all_goals
    apply not_complete_of_error (e := .eof)
    rw [Ruby.Base.decode_response]
    rfl

theorem accessErrorCode_of_lt {b : UInt8} (h : b < 6) : ∃ e, (accessErrorCode e).toUInt8 = b := by
  have hb : b.toNat < 6 := UInt8.lt_iff_toNat_lt.mp h
  have hcases : b.toNat = 0 ∨ b.toNat = 1 ∨ b.toNat = 2 ∨ b.toNat = 3 ∨ b.toNat = 4 ∨
      b.toNat = 5 := by omega
  rcases hcases with h | h | h | h | h | h
  · exact ⟨.unknown, UInt8.toNat_inj.mp h.symm⟩
  · exact ⟨.access, UInt8.toNat_inj.mp h.symm⟩
  · exact ⟨.authentication, UInt8.toNat_inj.mp h.symm⟩
  · exact ⟨.argument, UInt8.toNat_inj.mp h.symm⟩
  · exact ⟨.temporary, UInt8.toNat_inj.mp h.symm⟩
  · exact ⟨.application, UInt8.toNat_inj.mp h.symm⟩

theorem getAccessResult_invalid {b : UInt8} (h : ¬ b < 6) :
    ∃ e, Ruby.Base.getAccessResult [1, b] = .error e := by
  rw [Ruby.Base.getAccessResult, Decoder.bind_ok (Ruby.InputCodec.getUint_small (by decide) _)]
  change ∃ e, (Ruby.InputCodec.getUint >>= _) [b] = _
  by_cases hsmall : b < 0x80
  · have hnone : Ruby.Base.accessResultReason[b.toNat]? = none := by
      apply List.getElem?_eq_none
      rw [UInt8.lt_iff_toNat_lt] at h
      exact Nat.not_lt.mp h
    rw [Decoder.bind_ok (Ruby.InputCodec.getUint_small hsmall [])]
    simp only [hnone]
    exact ⟨.encoding, rfl⟩
  · obtain ⟨e, he⟩ := Ruby.InputCodec.getUint_lone hsmall
    exact ⟨e, Decoder.bind_error he⟩

/-- A failure response is complete if all of it is there and the reason is one of the list. -/
theorem complete_failure {inv kind b : UInt8} (hkind : kind < 0x80)
    (hbad : ∀ e, Ruby.Base.getAccessResult [1, b] = .error e →
      Ruby.Response.decodeType kind.toNat [1, b] = .error e)
    (hgood : ∀ e, Complete [4, inv, kind, 1, (accessErrorCode e).toUInt8]) :
    Complete [4, inv, kind, 1, b] ↔ b < 6 := by
  constructor
  · intro hwhole
    by_contra hb
    obtain ⟨e, he⟩ := getAccessResult_invalid hb
    exact not_complete_of_error (decode_error inv hkind (hbad e he)) hwhole
  · intro hb
    obtain ⟨e, rfl⟩ := accessErrorCode_of_lt hb
    exact hgood e

theorem complete_writeFailure (inv b : UInt8) : Complete [4, inv, 0, 1, b] ↔ b < 6 := by
  apply complete_failure (by decide)
  · intro e he
    exact Decoder.bind_error (Decoder.bind_error he)
  · intro e
    exact ⟨_, decode_write inv (getAccessResult_failure e [])⟩

theorem complete_readFailure (inv b : UInt8) : Complete (Server.readFailure inv b) ↔ b < 6 := by
  apply complete_failure (by decide)
  · intro e he
    exact Decoder.bind_error (Decoder.bind_error he)
  · intro e
    exact ⟨_, decode_read_failure inv (getAccessResult_failure e [])⟩

/-- A five-byte failure response in any room. -/
theorem failure_whole {inv kind b : UInt8}
    (hshort : ¬ Complete [4, inv, kind] ∧ ¬ Complete [4, inv, kind, 1])
    (hfull : Complete [4, inv, kind, 1, b] ↔ b < 6) (n : Nat) :
    ([4, inv, kind, 1, b].take n = [] ∨ Complete ([4, inv, kind, 1, b].take n)) ↔
      n = 0 ∨ (5 ≤ n ∧ b < 6) := by
  obtain ⟨h1, h2, -⟩ := not_complete_short inv
  rcases n with _ | _ | _ | _ | _ | n
  · simp
  · simpa using h1
  · simpa using h2
  · simpa using hshort.1
  · simpa using hshort.2
  · simpa using hfull

theorem success_whole (inv : UInt8) (n : Nat) :
    ([4, inv, 0, 0].take n = [] ∨ Complete ([4, inv, 0, 0].take n)) ↔ n = 0 ∨ 4 ≤ n := by
  obtain ⟨h1, h2, h3, -⟩ := not_complete_short inv
  rcases n with _ | _ | _ | _ | n
  · simp
  · simpa using h1
  · simpa using h2
  · simpa using h3
  · simpa using ⟨_, decode_write inv (getAccessResult_success [])⟩

theorem complete_value (inv : UInt8) (v : Datum Bytes) :
    Complete ([4, inv, 1, 0] ++ datumOctets v) ↔
      ∀ b, v.string? = some b → ¬ Oer.Clipped b.size := by
  constructor
  · rintro ⟨msg, hmsg⟩ b hb hclipped
    obtain ⟨value, hget, -⟩ := getValue_clipped hb hclipped
    have hdecode := decode_read_success inv hget
    change Ruby.Base.decode ([4, inv, 1, 0] ++ datumOctets v) = _ at hdecode
    rw [hmsg] at hdecode
    exact clipped_data hclipped (congrArg Prod.snd (Except.ok.inj hdecode)).symm
  · intro hv
    have hget := (getValue_decodes v).whole
    rw [← datumOctets_eq hv] at hget
    exact ⟨_, decode_read_success inv hget⟩

variable {σ : Type} (srv : Server σ) (loc : Locals) (app : σ) (inv : UInt8) (inp out : Stream)

/-- The read handler puts one value and returns what that returned. -/
def Puts (read : ReadFn σ) (value : σ → UInt32 → Stream → Datum Bytes) : Prop :=
  ∀ app oid out, ((read app oid out).verdict, (read app oid out).out) =
    Data.put (value app oid out) out

theorem Puts.appendOnly {read : ReadFn σ} {value : σ → UInt32 → Stream → Datum Bytes}
    (h : Puts read value) : Server.AppendOnly read := by
  intro app oid out
  have hput : (read app oid out).out = (Data.put (value app oid out) out).2 :=
    congrArg Prod.snd (h app oid out)
  rw [hput]
  exact (Data.put_appends _).writes out

/-- Room for the response to this command, and a response that can be told. -/
def ResponseFits (read : ReadFn σ) (write : WriteFn σ)
    (value : σ → UInt32 → Stream → Datum Bytes) : Except Unit (Body UInt32 × List UInt8) → Prop
  | .error _ => True
  | .ok (.read oid, _) =>
    let o := out.push [4, inv, 1, 0]
    let v := value app oid o
    let length := 4 + (datumOctets v).length
    (length ≤ out.room ∧ ∀ b, v.string? = some b → ¬ Oer.Clipped b.size) ∨
      (out.room < length ∧ 5 ≤ out.room ∧ Server.errorByte loc (read app oid o).error < 6)
  | .ok (.write oid data, rest) =>
    let s := (inp.skip 2).after rest
    let h := write app oid (placed data s) s
    (h.verdict = true ∧ 4 ≤ out.room) ∨
      (h.verdict = false ∧ 5 ≤ out.room ∧ Server.errorByte loc h.error < 6)

theorem whole_write {write : WriteFn σ} (hwrite : srv.write = some write) (oid : UInt32)
    (data : DataRx) :
    let h := write app oid data inp
    WholeOrNothing out (srv.respondWrite loc app inv oid data inp out).out ↔
      out.room = 0 ∨ (h.verdict = true ∧ 4 ≤ out.room) ∨
        (h.verdict = false ∧ 5 ≤ out.room ∧ Server.errorByte loc h.error < 6) := by
  intro h
  have hhandler := Server.writeHandler_of_some hwrite
  have hcontent := Stream.content_push out (Server.writeReply loc inv h)
  obtain ⟨-, -, h3, -, h4, -⟩ := not_complete_short inv
  rw [Server.respondWrite_eq, hhandler, wholeOrNothing_iff hcontent, Server.writeReply]
  cases hv : h.verdict with
  | true => simpa using success_whole inv out.room
  | false =>
    simpa using failure_whole ⟨h3, h4⟩ (complete_writeFailure inv _) out.room

theorem whole_read {read : ReadFn σ} {value : σ → UInt32 → Stream → Datum Bytes}
    (hread : srv.read = some read) (hputs : Puts read value) (oid : UInt32) :
    let o := out.push [4, inv, 1, 0]
    let v := value app oid o
    let length := 4 + (datumOctets v).length
    WholeOrNothing out (srv.respondRead loc app inv oid inp out).out ↔
      out.room = 0 ∨ (length ≤ out.room ∧ ∀ b, v.string? = some b → ¬ Oer.Clipped b.size) ∨
        (out.room < length ∧ 5 ≤ out.room ∧ Server.errorByte loc (read app oid o).error < 6) := by
  intro o v length
  have hhandler := Server.readHandler_of_some hread
  have happend : Server.AppendOnly srv.readHandler := hhandler.symm ▸ hputs.appendOnly
  obtain ⟨hok, hfail⟩ := srv.respondRead_out loc app inv inp out oid happend
  rw [hhandler] at hok hfail
  have hput := hputs app oid o
  have hpos := datumOctets_pos v
  have hroom : o.room = out.room - 4 := Stream.room_push out [4, inv, 1, 0]
  have hfits : o.Fits (datumOctets v).length ↔ length ≤ out.room := by
    rw [Stream.fits_iff_le_room hpos, hroom]
    omega
  by_cases hfit : o.Fits (datumOctets v).length
  · have hlength := hfits.mp hfit
    rw [(Data.put_appends v).ok hfit, Prod.mk.injEq] at hput
    have hcontent : (srv.respondRead loc app inv oid inp out).out.content =
        out.content ++ ([4, inv, 1, 0] ++ datumOctets v) := by
      have hfull : ([4, inv, 1, 0] ++ datumOctets v).length ≤ out.room := by
        rw [List.length_append]
        exact hlength
      rw [hok hput.1, hput.2, ← Stream.push_of_le hfit.2, Stream.push_push, Stream.content_push,
        List.take_of_length_le hfull]
    rw [wholeOrNothing_iff hcontent, complete_value]
    simp only [List.cons_append, reduceCtorEq, false_or]
    constructor
    · exact fun h => Or.inr (Or.inl ⟨hlength, h⟩)
    · rintro (h | h | h)
      · omega
      · exact h.2
      · omega
  · have hlength := mt hfits.mpr hfit
    have hv : (read app oid o).verdict = false :=
      (congrArg Prod.fst hput).trans ((Data.put_appends v).not_ok hfit).1
    have hcontent := (hfail hv).content
    rw [Stream.content_push] at hcontent
    obtain ⟨-, -, -, h3, -, h4⟩ := not_complete_short inv
    rw [wholeOrNothing_iff hcontent]
    have hwhole := failure_whole ⟨h3, h4⟩
      (complete_readFailure inv (Server.errorByte loc (read app oid o).error)) out.room
    refine hwhole.trans (or_congr_right ?_)
    constructor
    · exact fun h => Or.inr ⟨Nat.not_le.mp hlength, h⟩
    · rintro (h | h)
      · exact absurd h.1 hlength
      · exact h.2

theorem alert_whole (narrow : Server.Narrowing) (id : UInt32) (v : Datum Bytes) :
    ((Server.alert narrow id v out).1 = false → (Server.alert narrow id v out).2.pos = out.pos) ↔
      out.room = 0 ∨ (alertOctets id (carried narrow v)).length ≤ out.room := by
  have hpos : 0 < (alertOctets id (carried narrow v)).length := Nat.succ_pos _
  rw [← Stream.fits_iff_le_room hpos]
  by_cases hfit : out.Fits (alertOctets id (carried narrow v)).length
  · rw [(alert_appends narrow id v).ok hfit]
    exact iff_of_true (fun h => by cases h) (Or.inr hfit)
  · obtain ⟨hfalse, n, hn, hs⟩ := (alert_appends narrow id v).not_ok hfit
    simp only [hfalse, hfit, or_false, true_implies]
    constructor
    · intro hsame
      by_contra hroom
      obtain ⟨put, hput, halert⟩ := alert_eq narrow id v
      have hmoves := (Oer.putU8_appends 5).andThen_moves hput (Nat.pos_of_ne_zero hroom)
      rw [← halert, hsame] at hmoves
      exact Nat.lt_irrefl _ hmoves
    · intro hroom
      rw [hs, show n = 0 by omega, List.take_zero, Stream.append_nil]

/-- Nothing says that a message did not fit: a confirmed command leaves a part of a response, an
alert that returns false a part of an alert, in every room but none and enough. -/
theorem whole_or_nothing {read : ReadFn σ} {write : WriteFn σ}
    {value : σ → UInt32 → Stream → Datum Bytes} (hread : srv.read = some read)
    (hwrite : srv.write = some write) (hputs : Puts read value)
    (hinv : Server.isConfirmed inv = true) {tl : List UInt8} (hrest : inp.rest = 3 :: inv :: tl) :
    (WholeOrNothing out (srv.process loc app inp out).out ↔
      out.room = 0 ∨ ResponseFits loc app inv inp out read write value (Grammar.body tl)) ∧
    ∀ narrow id v, ((Server.alert narrow id v out).1 = false →
        (Server.alert narrow id v out).2.pos = out.pos) ↔
      out.room = 0 ∨ (alertOctets id (carried narrow v)).length ≤ out.room := by
  refine ⟨?_, alert_whole out⟩
  have hrollback := Server.rollback_confirmed (σ := σ) hinv inp.pos
  cases hbody : Grammar.body tl with
  | error e =>
    obtain ⟨hrun, htl⟩ := srv.process_command loc app inv inp out hrest
    rw [← htl] at hbody
    obtain ⟨n, -, hnone⟩ := srv.processBody_error loc app inv (inp.skip 2) out hbody
    rw [hrun, hrollback, hnone]
    exact iff_of_true ⟨[], by simp, Or.inl rfl⟩ (Or.inr trivial)
  | ok r =>
    obtain ⟨⟨oid, data⟩ | oid, rest⟩ := r
    · rw [(srv.process_write loc app inv inp out hrest hbody).1, hrollback]
      exact whole_write srv loc app inv _ out hwrite oid _
    · rw [(srv.process_read loc app inv inp out hrest hbody).1, hrollback]
      exact whole_read srv loc app inv _ out hread hputs oid

theorem meterRead_puts : Puts Server.meterRead fun _ _ _ => .u8 7 := fun _ _ _ => rfl

/-- A confirmed read of a u8 in six free bytes. -/
theorem whole_or_nothing_meter :
    WholeOrNothing (Server.streamAt [0, 0, 0, 0, 0, 0] (by decide) 0)
      (Server.meter.process Server.zeroed () (Server.streamAt [3, 0x81, 1, 5] (by decide) 0)
        (Server.streamAt [0, 0, 0, 0, 0, 0] (by decide) 0)).out :=
  (whole_or_nothing Server.meter Server.zeroed () 0x81
    (Server.streamAt [3, 0x81, 1, 5] (by decide) 0)
    (Server.streamAt [0, 0, 0, 0, 0, 0] (by decide) 0) rfl rfl meterRead_puts rfl
    (show _ = 3 :: 0x81 :: [1, 5] from rfl)).1.mpr
    (Or.inr (Or.inl ⟨by decide, fun _ h => by cases h⟩))

/-- In four free bytes the same read leaves the first four of five bytes of a failure. -/
theorem whole_or_nothing_cut :
    let out := Server.streamAt [0, 0, 0, 0] (by decide) 0
    let out' := (Server.meter.process Server.zeroed ()
      (Server.streamAt [3, 0x81, 1, 5] (by decide) 0) out).out
    out'.content = [4, 0x81, 1, 1] ∧ ¬ WholeOrNothing out out' := by
  intro out out'
  have hcontent : out'.content = out.content ++ [4, 0x81, 1, 1] := by decide
  refine ⟨hcontent, fun hwhole => ?_⟩
  rcases (wholeOrNothing_iff hcontent).mp hwhole with h | h
  · cases h
  · exact (not_complete_short 0x81).2.2.2.2.2 h

end Aloof.Agreement
