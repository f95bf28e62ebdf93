import Aloof.Agreement.Value
import Aloof.C.ServerEffects
import Aloof.Ruby.MessageProof

namespace Aloof.Agreement

open Framework C
open Ruby (invokeByte)

/-- What the write handler is given is this value: of the same kind, and the string, if it is one,
comes whole out of one aloof_data_get_string call. -/
def Carries (data : DataRx) (inp : Stream) (v : Datum Bytes) : Prop :=
  data.map StringRx.size = v.map Bytes.size ∧
  ∀ b, v.string? = some b → ∀ max ≥ b.size,
    (Data.getString data inp max).retval = b.size ∧ (Data.getString data inp max).value = b.data

theorem isConfirmed_invokeByte (confirmed : Bool) (invokeId : Nat) :
    Server.isConfirmed (invokeByte confirmed invokeId) = confirmed := by
  have hall : ∀ c : Bool, ∀ m : Fin 128,
      Server.isConfirmed (UInt8.ofNat (m.val ||| if c then 0x80 else 0x00)) = c := by
    decide
  have hlt : invokeId &&& 0x7f < 128 := Nat.lt_of_le_of_lt Nat.and_le_right (by decide)
  exact hall confirmed ⟨_, hlt⟩

theorem writeCommand_encode (oid : Nat) (v : Datum Bytes) :
    (Ruby.WriteCommand.mk oid v.toRuby).encode = 0 :: Varint.encode oid ++ head v ++ payload v := by
  simp only [Ruby.WriteCommand.encode, putValue_eq, Ruby.OutputCodec.putUint_eq]
  simp [Ruby.WriteCommand.tag, Varint.encode, Varint.short, octets]

theorem write_encode (confirmed : Bool) (invokeId oid : Nat) (v : Datum Bytes) :
    (Ruby.Command.mk confirmed invokeId (.write ⟨oid, v.toRuby⟩)).encode =
      3 :: invokeByte confirmed invokeId :: (0 :: Varint.encode oid ++ head v ++ payload v) := by
  rw [Ruby.Command.encode_eq, Ruby.CommandType.encode, writeCommand_encode]

theorem read_encode (confirmed : Bool) (invokeId oid : Nat) :
    (Ruby.Command.mk confirmed invokeId (.read ⟨oid⟩)).encode =
      3 :: invokeByte confirmed invokeId :: 1 :: Varint.encode oid := by
  rw [Ruby.Command.encode_eq]
  simp only [Ruby.CommandType.encode, Ruby.ReadCommand.encode, Ruby.OutputCodec.putUint_eq]
  simp [Ruby.ReadCommand.tag, Varint.encode, Varint.short, octets]

/-- Whatever the data are, they stand behind the oid. -/
theorem body_write_of_data (oid : Nat) {bs : List UInt8} {d : Datum UInt32}
    (hdata : Decoder.Decodes Grammar.data bs d) :
    Decoder.Decodes Grammar.body (0 :: Varint.encode oid ++ bs) (.write (UInt32.ofNat oid) d) := by
  intro rest
  rw [Grammar.body, List.cons_append, List.cons_append, Decoder.bind_ok (Grammar.octet_cons _ _),
    if_pos (by decide)]
  exact (Grammar.uint_encode oid).bind (hdata.map (Body.write _)) rest

theorem body_write_decodes (oid : UInt32) (v : Datum Bytes) :
    Decoder.Decodes Grammar.body (0 :: Varint.encode oid.toNat ++ head v)
      (.write oid (v.map Bytes.size)) := by
  have hbody := body_write_of_data oid.toNat (data_decodes v)
  rwa [UInt32.ofNat_toNat] at hbody

theorem body_read_decodes (oid : UInt32) :
    Decoder.Decodes Grammar.body (1 :: Varint.encode oid.toNat) (.read oid) := by
  have huint := Grammar.uint_encode oid.toNat
  rw [UInt32.ofNat_toNat] at huint
  intro rest
  rw [Grammar.body, List.cons_append, Decoder.bind_ok (Grammar.octet_cons _ _),
    if_neg (by decide), if_pos (by decide)]
  exact huint.map Body.read rest

theorem carries_placed {v : Datum Bytes} {s : Stream} (h : s.rest = payload v) :
    Carries (placed (v.map Bytes.size) s) s v := by
  refine ⟨Server.placed_size _ _, fun b hb max hmax => ?_⟩
  have hrest : s.rest = b.data := by simp [h, payload, hb]
  have hwindow : (placed (v.map Bytes.size) s).string? = some ⟨b.size, s.pos⟩ := by
    simp [placed, hb]
  obtain ⟨hretval, hvalue, -⟩ :=
    Data.getString_whole hwindow rfl (by rw [hrest, b.toNat_size]) hmax
  rw [hrest, b.toNat_size, List.take_length] at hvalue
  exact ⟨hretval, hvalue⟩

variable {σ : Type} (srv : Server σ) (loc : Locals) (app : σ) (out : Stream)

/-- The invoke field of the response, which follows the tag. -/
def Answers (confirmed : Bool) (invokeId : Nat) (out : Stream) (r : Outcome σ) : Prop :=
  confirmed = true → 2 ≤ out.room → ∃ more, r.out.content =
    out.content ++ 4 :: UInt8.ofNat (0x80 ||| (invokeId &&& 0x7f)) :: more

theorem answers {confirmed : Bool} {invokeId : Nat} {inp : Stream} {r : Outcome σ}
    (h : ∃ more, Stream.Alike r.out (out.push (4 :: invokeByte confirmed invokeId :: more))) :
    Answers confirmed invokeId out
      (Server.rollback (invokeByte confirmed invokeId) inp.pos r) := by
  rintro rfl hroom
  obtain ⟨more, h⟩ := h
  have hfield := Server.header_of_alike _ out h hroom
  rw [Server.rollback_confirmed (isConfirmed_invokeByte true invokeId)]
  rwa [invokeByte, Nat.or_comm] at hfield

/-- The server calls the one handler that the client meant, with what the client meant, and its
response names the command. -/
theorem command_understood {read : ReadFn σ} {write : WriteFn σ} (hread : srv.read = some read)
    (hwrite : srv.write = some write) (confirmed : Bool) (invokeId : Nat) (oid : UInt32) :
    (∀ v, let frame := (Ruby.Command.mk confirmed invokeId (.write ⟨oid.toNat, v.toRuby⟩)).encode
      ∀ h : frame.length < 2^32, let r := srv.process loc app (Stream.initRo frame h) out
        (∃ data inp, r.calls = [.write oid data inp] ∧ Carries data inp v) ∧
        Answers confirmed invokeId out r) ∧
    (let frame := (Ruby.Command.mk confirmed invokeId (.read ⟨oid.toNat⟩)).encode
      ∀ h : frame.length < 2^32, let r := srv.process loc app (Stream.initRo frame h) out
        (∃ out, r.calls = [.read oid out]) ∧
        (Server.AppendOnly read → Answers confirmed invokeId out r)) := by
  constructor
  · intro v frame h
    have hrest := (Stream.rest_initRo h).trans (write_encode confirmed invokeId oid.toNat v)
    have hbody := body_write_decodes oid v (payload v)
    obtain ⟨hrun, hs⟩ := srv.process_write loc app _ _ out hrest hbody
    rw [hrun]
    refine ⟨⟨_, _, ?_, carries_placed hs⟩,
      answers out (srv.respondWrite_header loc app _ _ out oid _)⟩
    simp only [Server.rollback_calls, Server.respondWrite_eq, hwrite, Option.isSome_some, if_true]
  · intro frame h
    have hrest := (Stream.rest_initRo h).trans (read_encode confirmed invokeId oid.toNat)
    have hbody := (body_read_decodes oid).whole
    obtain ⟨hrun, -⟩ := srv.process_read loc app _ _ out hrest hbody
    rw [hrun]
    refine ⟨⟨out.push [4, invokeByte confirmed invokeId, 1, 0], ?_⟩, fun hout => ?_⟩
    · simp only [Server.rollback_calls, Server.respondRead_eq, hread, Option.isSome_some, if_true]
    · have hhandler := srv.readHandler_appendOnly fun _ h => by
        cases hread.symm.trans h
        exact hout
      exact answers out (srv.respondRead_header loc app _ _ out oid hhandler)

/-- A confirmed write of a string and a read, with an invoke id that has wrapped. -/
theorem command_understood_meter :
    let out := Server.streamAt [0, 0, 0, 0, 0, 0, 0, 0] (by decide) 0
    let v : Datum Bytes := .string ⟨[104, 105], by decide⟩
    (∀ h, ∃ data inp, (Server.meter.process Server.zeroed ()
        (Stream.initRo (Ruby.Command.mk true 130 (.write ⟨300, v.toRuby⟩)).encode h) out).calls =
      [.write 300 data inp] ∧ Carries data inp v) ∧
    (∀ h, Answers true 130 out (Server.meter.process Server.zeroed ()
      (Stream.initRo (Ruby.Command.mk true 130 (.read ⟨300⟩)).encode h) out)) := by
  intro out v
  have h := command_understood Server.meter Server.zeroed () out rfl rfl true 130 300
  exact ⟨fun hlen => (h.1 v hlen).1, fun hlen => (h.2 hlen).2 (Server.meter_appendOnly rfl)⟩

end Aloof.Agreement
