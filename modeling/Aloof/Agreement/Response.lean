import Aloof.Agreement.Value
import Aloof.C.ServerEffects
import Aloof.Ruby.MessageProof

namespace Aloof.Agreement

open Framework C

/-- The place of an access error in ACCESS_RESULT_REASON. -/
def reason : AccessError → Ruby.Reason
  | .unknown => .unkownOid
  | .access => .accessDenied
  | .authentication => .authenticationRequired
  | .argument => .argumentError
  | .temporary => .temporaryFailure
  | .application => .applicationError

/-- The result that reports a verdict. -/
def accessResult (verdict : Bool) (error : Option AccessError) : Ruby.AccessResult :=
  if verdict then .success else .failure (reason (error.getD .unknown))

theorem getAccessResult_success (tl : List UInt8) :
    Ruby.Base.getAccessResult (0 :: tl) = .ok (.success, tl) := by
  rw [Ruby.Base.getAccessResult, Decoder.bind_ok (Ruby.InputCodec.getUint_small (by decide) tl)]
  rfl

theorem getAccessResult_failure (e : AccessError) (tl : List UInt8) :
    Ruby.Base.getAccessResult (1 :: (accessErrorCode e).toUInt8 :: tl) =
      .ok (.failure (reason e), tl) := by
  rw [Ruby.Base.getAccessResult, Decoder.bind_ok (Ruby.InputCodec.getUint_small (by decide) _)]
  have hsmall : (accessErrorCode e).toUInt8 < 0x80 := by cases e <;> decide
  change (Ruby.InputCodec.getUint >>= _) _ = _
  rw [Decoder.bind_ok (Ruby.InputCodec.getUint_small hsmall tl)]
  cases e <;> rfl

/-- The header of a response. -/
theorem decode_header (inv : UInt8) {kind : UInt8} (hkind : kind < 0x80) (tl : List UInt8) :
    Ruby.Base.decode (4 :: inv :: kind :: tl) = (do
      let type ← Ruby.Response.decodeType kind.toNat
      return some (.response ⟨(inv &&& 0x80) != 0, (inv &&& 0x7f).toNat, type⟩) :
      Decoder Ruby.Error UInt8 (Option Ruby.Message)) tl := by
  rw [Ruby.Base.decode_response, Ruby.Response.decode,
    Decoder.bind_ok (Ruby.InputCodec.getByte_cons _ _),
    Decoder.bind_ok (Ruby.InputCodec.getUint_small hkind tl)]

theorem decode_error (inv : UInt8) {kind : UInt8} (hkind : kind < 0x80) {tl : List UInt8}
    {e : Ruby.Error} (h : Ruby.Response.decodeType kind.toNat tl = .error e) :
    Ruby.Base.decode (4 :: inv :: kind :: tl) = .error e := by
  rw [decode_header inv hkind]
  exact Decoder.bind_error h

/-- The response to this invoke field. -/
def responseTo (inv : UInt8) (type : Ruby.ResponseType) : Ruby.Message :=
  .response ⟨(inv &&& 0x80) != 0, (inv &&& 0x7f).toNat, type⟩

theorem decode_write (inv : UInt8) {bs tl : List UInt8} {result : Ruby.AccessResult}
    (h : Ruby.Base.getAccessResult bs = .ok (result, tl)) :
    Ruby.Base.decode (4 :: inv :: 0 :: bs) = .ok (some (responseTo inv (.write ⟨result⟩)), tl) := by
  have hbody : Ruby.WriteResponse.decode bs = .ok (⟨result⟩, tl) := Decoder.bind_ok h
  have htype : Ruby.Response.decodeType 0 bs = .ok (.write ⟨result⟩, tl) := Decoder.bind_ok hbody
  rw [decode_header inv (by decide)]
  exact Decoder.bind_ok htype

theorem decode_read (inv : UInt8) {bs tl : List UInt8} {type : Ruby.ReadResponse}
    (h : Ruby.ReadResponse.decode bs = .ok (type, tl)) :
    Ruby.Base.decode (4 :: inv :: 1 :: bs) = .ok (some (responseTo inv (.read type)), tl) := by
  have htype : Ruby.Response.decodeType 1 bs = .ok (.read type, tl) := Decoder.bind_ok h
  rw [decode_header inv (by decide)]
  exact Decoder.bind_ok htype

theorem decode_read_success (inv : UInt8) {bs tl : List UInt8} {value : Ruby.Value}
    (h : Ruby.Base.getValue bs = .ok (value, tl)) :
    Ruby.Base.decode (4 :: inv :: 1 :: 0 :: bs) =
      .ok (some (responseTo inv (.read ⟨.success, some value⟩)), tl) := by
  apply decode_read
  rw [Ruby.ReadResponse.decode, Decoder.bind_ok (getAccessResult_success bs)]
  exact Decoder.bind_ok h

theorem decode_read_failure (inv : UInt8) {bs tl : List UInt8} {why : Ruby.Reason}
    (h : Ruby.Base.getAccessResult bs = .ok (.failure why, tl)) :
    Ruby.Base.decode (4 :: inv :: 1 :: bs) =
      .ok (some (responseTo inv (.read ⟨.failure why, none⟩)), tl) := by
  apply decode_read
  rw [Ruby.ReadResponse.decode, Decoder.bind_ok h]
  rfl

/-- A failing handler has said why. -/
def ErrorSet (verdict : Bool) (error : Option AccessError) : Prop := verdict = false → error.isSome

theorem errorByte_of_isSome {error : Option AccessError} (loc : Locals) (h : error.isSome) :
    Server.errorByte loc error = (accessErrorCode (error.getD .unknown)).toUInt8 := by
  cases error with
  | none => cases h
  | some e => rfl

/-- The contract of a read handler: true after one aloof_data_put_* that returned true, false after
whatever output, with the reason. -/
structure ReadContract {σ : Type} (read : ReadFn σ) (value : σ → UInt32 → Stream → Datum Bytes) :
    Prop where
  wrote : ∀ app oid out, (read app oid out).verdict = true →
    Data.put (value app oid out) out = (true, (read app oid out).out)
  output : ∀ app oid out, (read app oid out).verdict = false → Writes out (read app oid out).out
  error : ∀ app oid out, ErrorSet (read app oid out).verdict (read app oid out).error

def WriteContract {σ : Type} (write : WriteFn σ) : Prop :=
  ∀ app oid data inp, ErrorSet (write app oid data inp).verdict (write app oid data inp).error

variable {σ : Type} (srv : Server σ) (loc : Locals) (app : σ) (inv : UInt8) (inp out : Stream)

theorem ReadContract.appendOnly {read : ReadFn σ} {value : σ → UInt32 → Stream → Datum Bytes}
    (h : ReadContract read value) : Server.AppendOnly read := by
  intro app oid out
  cases hv : (read app oid out).verdict with
  | true =>
    have hput : (Data.put (value app oid out) out).2 = (read app oid out).out := by
      rw [h.wrote app oid out hv]
    exact hput ▸ (Data.put_appends _).writes out
  | false => exact h.output app oid out hv

/-- What was added to the output is a response of this type to the command. -/
def Responds (out out' : Stream) (inv : UInt8) (type : Ruby.ResponseType) : Prop :=
  ∃ bs, out'.content = out.content ++ bs ∧
    Ruby.MessageDecoder.decode bs = some (.response ⟨true, (inv &&& 0x7f).toNat, type⟩)

theorem responseTo_confirmed (h : Server.isConfirmed inv = true) (type : Ruby.ResponseType) :
    responseTo inv type = .response ⟨true, (inv &&& 0x7f).toNat, type⟩ := by
  have hbit : ((inv &&& 0x80) != 0) = true := by
    rw [bne_iff_ne]
    exact UInt8.pos_iff_ne_zero.mp (of_decide_eq_true h)
  rw [responseTo, hbit]

theorem responds_of_alike {out' : Stream} {bs tl : List UInt8} {type : Ruby.ResponseType}
    (hinv : Server.isConfirmed inv = true) (h : Stream.Alike out' (out.push bs))
    (hroom : bs.length ≤ out.room)
    (hdecode : Ruby.Base.decode bs = .ok (some (responseTo inv type), tl)) :
    Responds out out' inv type := by
  refine ⟨bs, ?_, ?_⟩
  · rw [h.content, Stream.content_push, List.take_of_length_le hroom]
  · rw [Ruby.MessageDecoder.decode, hdecode, responseTo_confirmed inv hinv]

/-- A value that was appended in full had its room. -/
theorem put_push {v : Datum Bytes} {t : Stream} {bs : List UInt8}
    (h : Data.put v (out.push bs) = (true, t)) :
    t = out.push (bs ++ datumOctets v) ∧ bs.length + (datumOctets v).length ≤ out.room := by
  by_cases hfit : (out.push bs).Fits (datumOctets v).length
  · have hput := (Data.put_appends v).ok hfit
    rw [h, Prod.mk.injEq] at hput
    have hroom := hfit.2
    have hpos := datumOctets_pos v
    rw [Stream.room_push] at hroom
    refine ⟨?_, by omega⟩
    rw [hput.2, ← Stream.push_of_le hfit.2, Stream.push_push]
  · have hput := ((Data.put_appends v).not_ok hfit).1
    rw [h] at hput
    cases hput

theorem short_not_clipped {v : Datum Bytes} (h : (datumOctets v).length ≤ 65535) (b : Bytes)
    (hb : v.string? = some b) : ¬ Oer.Clipped b.size := by
  have hlen : b.data.length ≤ 65535 := by
    cases v <;> cases hb <;> simp [datumOctets] at h <;> omega
  rw [← b.toNat_size] at hlen
  rintro (h | h) <;> rw [h] at hlen <;> exact absurd hlen (by decide)

theorem read_responds {read : ReadFn σ} {value : σ → UInt32 → Stream → Datum Bytes}
    (hread : srv.read = some read) (hr : ReadContract read value)
    (hinv : Server.isConfirmed inv = true) (oid : UInt32) :
    let o := out.push [4, inv, 1, 0]
    let h := read app oid o
    let v := value app oid o
    let length := if h.verdict then 4 + (datumOctets v).length else 5
    length ≤ out.room → length ≤ 65535 →
    Responds out (srv.respondRead loc app inv oid inp out).out inv
      (.read ⟨accessResult h.verdict h.error, if h.verdict then some v.toRuby else none⟩) := by
  intro o h v length hroom hlength
  have hhandler := Server.readHandler_of_some hread
  have happend : Server.AppendOnly srv.readHandler := hhandler.symm ▸ hr.appendOnly
  obtain ⟨hok, hfail⟩ := srv.respondRead_out loc app inv inp out oid happend
  rw [hhandler] at hok hfail
  cases hv : h.verdict with
  | true =>
    have hput := put_push out (hr.wrote app oid o hv)
    simp only [length, hv, if_true] at hlength hroom
    have hvalue := getValue_decodes v
    rw [← datumOctets_eq (short_not_clipped (by omega))] at hvalue
    have hlen : ([4, inv, 1, 0] ++ datumOctets v).length ≤ out.room := by
      rw [List.length_append]
      exact hput.2
    rw [hok hv]
    exact responds_of_alike inv out hinv (.of_eq hput.1) hlen
      (decode_read_success inv hvalue.whole)
  | false =>
    have hset := errorByte_of_isSome loc (hr.error app oid o hv)
    simp only [length, hv, Bool.false_eq_true, if_false] at hroom
    have halike := hfail hv
    rw [hset] at halike
    exact responds_of_alike inv out hinv halike hroom
      (decode_read_failure inv (getAccessResult_failure _ []))

theorem write_responds {write : WriteFn σ} (hwrite : srv.write = some write)
    (hw : WriteContract write) (hinv : Server.isConfirmed inv = true) (oid : UInt32)
    (data : DataRx) :
    let h := write app oid data inp
    (if h.verdict then 4 else 5) ≤ out.room →
    Responds out (srv.respondWrite loc app inv oid data inp out).out inv
      (.write ⟨accessResult h.verdict h.error⟩) := by
  intro h hroom
  rw [Server.respondWrite_eq, Server.writeHandler_of_some hwrite]
  change Responds out (out.push (Server.writeReply loc inv h)) inv _
  cases hv : h.verdict with
  | true =>
    have hreply : Server.writeReply loc inv h = [4, inv, 0, 0] := by
      simp only [Server.writeReply, hv, if_true]
    simp only [hv, if_true] at hroom
    rw [hreply]
    exact responds_of_alike inv out hinv (.refl _) hroom
      (decode_write inv (getAccessResult_success []))
  | false =>
    have hset := errorByte_of_isSome loc (hw app oid data inp hv)
    have hreply : Server.writeReply loc inv h =
        [4, inv, 0, 1, (accessErrorCode (h.error.getD .unknown)).toUInt8] := by
      simp only [Server.writeReply, hv, Bool.false_eq_true, if_false, h, hset]
    simp only [hv, Bool.false_eq_true, if_false] at hroom
    rw [hreply]
    exact responds_of_alike inv out hinv (.refl _) hroom
      (decode_write inv (getAccessResult_failure _ []))

/-- A response that fits is understood as what the handler answered. -/
theorem response_understood {read : ReadFn σ} {write : WriteFn σ}
    {value : σ → UInt32 → Stream → Datum Bytes} (hread : srv.read = some read)
    (hwrite : srv.write = some write) (hr : ReadContract read value) (hw : WriteContract write)
    (hinv : Server.isConfirmed inv = true) {tl : List UInt8}
    (hrest : inp.rest = 3 :: inv :: tl) :
    (∀ oid rest, Grammar.body tl = .ok (.read oid, rest) →
      let o := out.push [4, inv, 1, 0]
      let h := read app oid o
      let v := value app oid o
      let length := if h.verdict then 4 + (datumOctets v).length else 5
      length ≤ out.room → length ≤ 65535 →
      Responds out (srv.process loc app inp out).out inv
        (.read ⟨accessResult h.verdict h.error, if h.verdict then some v.toRuby else none⟩)) ∧
    (∀ oid data rest, Grammar.body tl = .ok (.write oid data, rest) →
      let s := (inp.skip 2).after rest
      let h := write app oid (placed data s) s
      (if h.verdict then 4 else 5) ≤ out.room →
      Responds out (srv.process loc app inp out).out inv
        (.write ⟨accessResult h.verdict h.error⟩)) := by
  have hrollback := Server.rollback_confirmed (σ := σ) hinv inp.pos
  constructor
  · intro oid rest hbody
    rw [(srv.process_read loc app inv inp out hrest hbody).1, hrollback]
    exact read_responds srv loc app inv _ out hread hr hinv oid
  · intro oid data rest hbody
    rw [(srv.process_write loc app inv inp out hrest hbody).1, hrollback]
    exact write_responds srv loc app inv _ out hwrite hw hinv oid _

theorem meterRead_contract : ReadContract Server.meterRead fun _ _ _ => .u8 7 where
  wrote _ _ _ hv := Prod.ext hv rfl
  output _ _ out _ := (Data.put_appends _).writes out
  error _ _ _ _ := rfl

theorem meterWrite_contract : WriteContract Server.meterWrite := fun _ _ _ _ _ => rfl

/-- A read of object 5 and a write to object 0. -/
theorem response_understood_meter :
    let out := Server.streamAt [9, 0, 0, 0, 0, 0, 0, 0] (by decide) 1
    Responds out (Server.meter.process Server.zeroed ()
      (Server.streamAt [3, 0x81, 1, 5] (by decide) 0) out).out 0x81
      (.read ⟨.success, some (.u8 7)⟩) ∧
    Responds out (Server.meter.process Server.zeroed ()
      (Server.streamAt [3, 0x82, 0, 0, 1, 66] (by decide) 0) out).out 0x82
      (.write ⟨.failure .accessDenied⟩) := by
  intro out
  have hread := response_understood Server.meter Server.zeroed () 0x81
    (Server.streamAt [3, 0x81, 1, 5] (by decide) 0) out rfl rfl meterRead_contract
    meterWrite_contract rfl (show _ = 3 :: 0x81 :: [1, 5] from rfl)
  have hwrite := response_understood Server.meter Server.zeroed () 0x82
    (Server.streamAt [3, 0x82, 0, 0, 1, 66] (by decide) 0) out rfl rfl meterRead_contract
    meterWrite_contract rfl (show _ = 3 :: 0x82 :: [0, 0, 1, 66] from rfl)
  have hverdict : (Server.meterRead () 5 (out.push [4, 0x81, 1, 0])).verdict = true := by decide
  have hvalue := hread.1 5 [] rfl (by decide) (by decide)
  rw [hverdict] at hvalue
  exact ⟨hvalue, hwrite.2 0 (.u8 66) [] rfl (by decide)⟩

end Aloof.Agreement
