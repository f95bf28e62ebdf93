import Aloof.Ruby.CodecProof
import Aloof.Ruby.Message

namespace Aloof.Ruby

open Framework

theorem InputCodec.getUint_small {b : UInt8} (h : b < 0x80) (rest : List UInt8) :
    getUint (b :: rest) = .ok (b.toNat, rest) := by
  have hshort := getUint_reads.short b.toNat (UInt8.lt_iff_toNat_lt.mp h) rest
  simpa [Varint.short, octets] using hshort

/-- A byte that announces more bytes, with none after it. -/
theorem InputCodec.getUint_lone {b : UInt8} (h : ¬ b < 0x80) : ∃ e, getUint [b] = .error e := by
  have hb := b.toNat_lt
  rw [UInt8.lt_iff_toNat_lt] at h
  have hle : 128 ≤ b.toNat := Nat.not_lt.mp h
  rw [getUint, Decoder.bind_ok (getByte_cons b [])]
  by_cases hlong : b > 0x80
  · have hlt : 128 < b.toNat := UInt8.lt_iff_toNat_lt.mp hlong
    have hn : 0 < (b &&& 0x7f).toNat := by
      rw [UInt8.toNat_and]
      change 0 < b.toNat &&& 2^7 - 1
      rw [Nat.and_two_pow_sub_one_eq_mod]
      omega
    rw [if_pos hlong]
    exact ⟨.eof, if_pos hn⟩
  · have heq : b = 0x80 := by
      rw [gt_iff_lt, UInt8.lt_iff_toNat_lt] at hlong
      exact UInt8.toNat_inj.mp (Nat.le_antisymm (Nat.not_lt.mp hlong) hle)
    rw [if_neg hlong, if_pos heq]
    exact ⟨.encoding, rfl⟩

theorem Base.decode_of_getUint {s s' : List UInt8} {tag : Nat}
    (h : InputCodec.getUint s = .ok (tag, s')) :
    Base.decode s =
      match messages[tag]? with
      | none => .ok (none, s')
      | some .hello => .ok (none, s')
      | some .helloHello => .ok (none, s')
      | some .error => Base.decode s'
      | some .command => Command.decode s'
      | some .response => Response.decode s'
      | some .alert => Alert.decode s' := by
  rw [Base.decode]
  split
  next hget =>
    rw [h] at hget
    cases hget
  next hget =>
    rw [h] at hget
    cases hget
    rfl

theorem Base.decode_response (rest : List UInt8) :
    Base.decode (4 :: rest) = Response.decode rest :=
  Base.decode_of_getUint (InputCodec.getUint_small (by decide) rest)

theorem Base.decode_alert (rest : List UInt8) :
    Base.decode (5 :: rest) = Alert.decode rest :=
  Base.decode_of_getUint (InputCodec.getUint_small (by decide) rest)

/-- The octet that Command#encode puts after the tag. -/
def invokeByte (confirmed : Bool) (invokeId : Nat) : UInt8 :=
  UInt8.ofNat ((invokeId &&& 0x7f) ||| (if confirmed then 0x80 else 0x00))

/-- The wire keeps the invoke id modulo 128. -/
theorem invokeByte_and (confirmed : Bool) (invokeId : Nat) :
    (invokeByte confirmed invokeId &&& 0x7f).toNat = invokeId % 128 := by
  have hall : ∀ c : Bool, ∀ m : Fin 128,
      (UInt8.ofNat (m.val ||| if c then 0x80 else 0x00) &&& 0x7f).toNat = m.val := by
    decide
  have hmod : invokeId &&& 0x7f = invokeId % 128 := Nat.and_two_pow_sub_one_eq_mod invokeId 7
  rw [invokeByte, hmod]
  exact hall confirmed ⟨_, Nat.mod_lt _ (by decide)⟩

theorem putU8_invokeField (c : Command) :
    OutputCodec.putU8 c.invokeField = [invokeByte c.confirmed c.invokeId] := by
  rw [OutputCodec.putU8, pack_natCast]
  simp [octets, invokeByte, Command.invokeField]

theorem Command.encode_eq (c : Command) :
    c.encode = 3 :: invokeByte c.confirmed c.invokeId :: c.type.encode := by
  simp only [Command.encode, putU8_invokeField, OutputCodec.putUint_eq]
  simp [Command.tag, Varint.encode, Varint.short, octets]

theorem Response.decode_invokeId {field : UInt8} {s r : List UInt8} {msg : Response}
    (h : Response.decode (field :: s) = .ok (some (.response msg), r)) :
    msg.invokeId = (field &&& 0x7f).toNat := by
  rw [Response.decode, Decoder.bind_ok (InputCodec.getByte_cons field s)] at h
  obtain ⟨cls, _, _, h⟩ := Decoder.bind_eq_ok h
  obtain ⟨type, _, _, h⟩ := Decoder.bind_eq_ok h
  cases h
  rfl

end Aloof.Ruby
