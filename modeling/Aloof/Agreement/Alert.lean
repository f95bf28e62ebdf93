import Aloof.Agreement.Value
import Aloof.C.Alert
import Aloof.C.ServerEffects
import Aloof.Ruby.MessageProof

namespace Aloof.Agreement

open Framework C

/-- The value that an alert carries instead of the one it was given. -/
def carried (narrow : Server.Narrowing) : Datum Bytes → Datum Bytes
  | .double v => .i8 (narrow v)
  | .blob v => .string v
  | v => v

def alertOctets (id : UInt32) (v : Datum Bytes) : List UInt8 :=
  5 :: Oer.uintOctets id ++ datumOctets v

variable (narrow : Server.Narrowing) (id : UInt32) (v : Datum Bytes) (out : Stream)

theorem alert_eq : ∃ put : Putter,
    put.Appends (Oer.uintOctets id ++ datumOctets (carried narrow v)) ∧
      Server.alert narrow id v = (Oer.putU8 5).andThen put := by
  have hput := (Oer.putUint_appends id).andThen (Data.put_appends (carried narrow v))
  cases v <;> exact ⟨_, hput, rfl⟩

theorem alert_appends : (Server.alert narrow id v).Appends (alertOctets id (carried narrow v)) := by
  obtain ⟨put, hput, halert⟩ := alert_eq narrow id v
  rw [halert]
  exact (Oer.putU8_appends 5).andThen hput

theorem length_carried_le :
    (alertOctets id (carried narrow v)).length ≤ (alertOctets id v).length := by
  cases v <;> simp [alertOctets, carried, datumOctets]

/-- A receiver gets the number that was sent or, for a clipped one, 0. -/
def received (n : UInt32) : Nat := if Oer.Clipped n then 0 else n.toNat

theorem decode_alertOctets (hv : ∀ b, v.string? = some b → ¬ Oer.Clipped b.size) :
    Ruby.Base.decode (alertOctets id v) = .ok (some (.alert ⟨received id, v.toRuby⟩), []) := by
  have hid := Oer.uintOctets_decodes Ruby.InputCodec.getUint_reads id
  rw [alertOctets, List.cons_append, Ruby.Base.decode_alert, datumOctets_eq hv]
  exact (hid.bind ((getValue_decodes v).map fun value =>
    some (Ruby.Message.alert ⟨received id, value⟩))).whole

theorem decode_clipped {b : Bytes} (hv : v.string? = some b) (hb : Oer.Clipped b.size) :
    ∃ value, Ruby.Base.decode (alertOctets id v) =
      .ok (some (.alert ⟨received id, value⟩), b.data) ∧ value ≠ v.toRuby := by
  have hid := Oer.uintOctets_decodes Ruby.InputCodec.getUint_reads id
  obtain ⟨value, hget, hne⟩ := getValue_clipped hv hb
  refine ⟨value, ?_, hne⟩
  rw [alertOctets, List.cons_append, Ruby.Base.decode_alert, Ruby.Alert.decode,
    Decoder.bind_ok (hid _), Decoder.bind_ok hget]
  rfl

/-- The function says true, writes the tag, the id and the value, and a receiver of these bytes gets
the type and the value back. -/
def AlertFaithful : Prop :=
  Server.alert narrow id v out = (true, out.append (alertOctets id v)) ∧
  ∃ aid, Ruby.MessageDecoder.decode (alertOctets id v) = some (.alert ⟨aid, v.toRuby⟩)

theorem alert_faithful (hroom : out.Fits (alertOctets id v).length) :
    AlertFaithful narrow id v out ↔
      v.type ≠ .double ∧ v.type ≠ .blob ∧ ∀ b, v.string? = some b → ¬ Oer.Clipped b.size := by
  have hshort := Nat.le_trans (length_carried_le narrow id v) hroom.2
  have hsent := (alert_appends narrow id v).ok ⟨hroom.1, hshort⟩
  have hsame : Server.alert narrow id v out = (true, out.append (alertOctets id v)) ↔
      alertOctets id (carried narrow v) = alertOctets id v := by
    rw [hsent, Prod.mk.injEq]
    refine ⟨fun h => ?_, fun h => ⟨rfl, by rw [h]⟩⟩
    have hcontent := congrArg Stream.content h.2
    rw [Stream.content_append hshort, Stream.content_append hroom.2] at hcontent
    exact List.append_cancel_left hcontent
  have htag : alertOctets id (carried narrow v) = alertOctets id v ↔
      v.type ≠ .double ∧ v.type ≠ .blob := by
    cases v <;> simp [alertOctets, carried, datumOctets, Datum.type, dataTypeCode]
  rw [AlertFaithful, hsame, htag, and_assoc]
  refine and_congr_right fun _ => and_congr_right fun _ => ?_
  constructor
  · rintro ⟨aid, hdecode⟩ b hb hclipped
    obtain ⟨value, hrun, hne⟩ := decode_clipped id v hb hclipped
    rw [Ruby.MessageDecoder.decode, hrun] at hdecode
    cases hdecode
    exact hne rfl
  · intro hv
    exact ⟨received id, by rw [Ruby.MessageDecoder.decode, decode_alertOctets id v hv]⟩

/-- An i16 alert arrives. -/
theorem alert_faithful_i16 :
    AlertFaithful (fun _ => 0) 300 (.i16 (-2))
      (Server.streamAt [7, 0, 0, 0, 0, 0, 0, 0, 0, 0] (by decide) 1) :=
  (alert_faithful (fun _ => 0) 300 (.i16 (-2)) _ (by decide)).mpr
    ⟨by decide, by decide, fun _ h => by cases h⟩

/-- The double 1.5 goes out as the i8 to which C narrows it, and the function says true. -/
theorem alert_narrows :
    let out := Server.streamAt (List.replicate 16 0) (by decide) 0
    (Server.alert (fun _ => 1) 3 (.double 0x3ff8000000000000) out).1 = true ∧
    (Server.alert (fun _ => 1) 3 (.double 0x3ff8000000000000) out).2.content = [5, 3, 5, 1] ∧
    ¬ AlertFaithful (fun _ => 1) 3 (.double 0x3ff8000000000000) out := by
  refine ⟨by decide, by decide, fun h => ?_⟩
  exact absurd (congrArg (fun r => r.2.content) h.1) (by decide)

end Aloof.Agreement
