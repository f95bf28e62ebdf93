import Aloof.Agreement.Value
import Aloof.Ruby.Encode
import Aloof.Ruby.MessageProof

namespace Aloof

open Framework

namespace Ruby

section Messages

variable {φ : Type}

/-- A value of its type; strings in binary encoding, of any length. -/
def Value.InRange : Value φ → Prop
  | .nil | .bool _ | .float _ | .double _ => True
  | .u8 v => 0 ≤ v ∧ v < 2^8
  | .u16 v => 0 ≤ v ∧ v < 2^16
  | .u32 v => 0 ≤ v ∧ v < 2^32
  | .u64 v => 0 ≤ v ∧ v < 2^64
  | .i8 v => -2^7 ≤ v ∧ v < 2^7
  | .i16 v => -2^15 ≤ v ∧ v < 2^15
  | .i32 v => -2^31 ≤ v ∧ v < 2^31
  | .i64 v => -2^63 ≤ v ∧ v < 2^63
  | .string v | .blob v => v = .binary v.bytes

/-- The bytes of a string or blob. -/
def Value.bytes? : Value φ → Option (List UInt8)
  | .string v | .blob v => some v.bytes
  | _ => none

def Hello.InRange (msg : Hello) : Prop :=
  msg.version < 2^32 ∧ 0 ≤ msg.features ∧ msg.features < 2^16

def CommandType.InRange : CommandType φ → Prop
  | .write type => type.oid < 2^32 ∧ type.value.InRange
  | .read type => type.oid < 2^32

/-- A read response has a value exactly if it reports a success. -/
def ResponseType.InRange : ResponseType φ → Prop
  | .write _ => True
  | .read type => (type.result = .success ↔ type.value.isSome) ∧ ∀ v ∈ type.value, v.InRange

def AnyMessage.InRange : AnyMessage φ → Prop
  | .hello msg | .helloHello msg => msg.InRange
  | .command msg => msg.invokeId < 128 ∧ msg.type.InRange
  | .response msg => msg.invokeId < 128 ∧ msg.type.InRange
  | .alert msg => msg.aid < 2^32 ∧ msg.value.InRange

end Messages

/-- The comparison of two values; of Floats it is not equality. -/
def Value.Same (value value' : Value UInt64) : Prop :=
  match value, value' with
  | .float d, .float d' | .double d, .double d' => Binary64.Eq d d'
  | value, value' => value = value'

def CommandType.Same : CommandType UInt64 → CommandType UInt64 → Prop
  | .write type, .write type' => type.oid = type'.oid ∧ type.value.Same type'.value
  | .read type, .read type' => type = type'
  | _, _ => False

def ResponseType.Same : ResponseType UInt64 → ResponseType UInt64 → Prop
  | .write type, .write type' => type = type'
  | .read type, .read type' =>
    type.result = type'.result ∧ Option.Rel Value.Same type.value type'.value
  | _, _ => False

/-- The same class, and equal fields. -/
def AnyMessage.Same : AnyMessage UInt64 → AnyMessage UInt64 → Prop
  | .hello msg, .hello msg' | .helloHello msg, .helloHello msg' => msg = msg'
  | .command msg, .command msg' =>
    msg.confirmed = msg'.confirmed ∧ msg.invokeId = msg'.invokeId ∧ msg.type.Same msg'.type
  | .response msg, .response msg' =>
    msg.confirmed = msg'.confirmed ∧ msg.invokeId = msg'.invokeId ∧ msg.type.Same msg'.type
  | .alert msg, .alert msg' => msg.aid = msg'.aid ∧ msg.value.Same msg'.value
  | _, _ => False

/-- What encode returns is decoded to an equal message. -/
def RoundTrip (m : AnyMessage UInt64) : Prop :=
  ∃ frame m', m.encodeFloats = .ok frame ∧ MessageDecoder.decodeFloats frame = some m' ∧ m.Same m'

/-- A :float value has the 32 bits of the format, and nothing is a NaN. -/
def Value.Exact : Value UInt64 → Prop
  | .float d => ¬ Binary64.IsNaN d ∧ ∃ v, d = Binary32.widen v
  | .double d => ¬ Binary64.IsNaN d
  | _ => True

theorem Value.inRange_map {φ ψ : Type} (f : φ → ψ) (value : Value φ) :
    (value.map f).InRange ↔ value.InRange := by
  cases value <;> rfl

theorem Value.bytes?_map {φ ψ : Type} (f : φ → ψ) (value : Value φ) :
    (value.map f).bytes? = value.bytes? := by
  cases value <;> rfl

theorem Value.Same.bytes?_eq {value value' : Value UInt64} (h : value.Same value') :
    value'.bytes? = value.bytes? := by
  cases value <;> cases value' <;> first | rfl | cases h <;> rfl

/-- The frame has 32 bits for a :float and 64 for a :double. -/
theorem Value.same_map_iff (value : Value UInt64) :
    value.Same ((value.map Binary64.narrow).map Binary32.widen) ↔ value.Exact := by
  cases value with
  | float d => exact Binary64.eq_widen_narrow d
  | double d => exact ⟨fun h => h.1, fun h => ⟨h, h, .inl rfl⟩⟩
  | _ => exact iff_of_true rfl trivial

/-- 0.1 -/
example : ¬ (Value.float 0x3fb999999999999a).Exact := by
  rw [← Value.same_map_iff]
  change ¬ Binary64.Eq _ _
  decide

end Ruby

namespace Agreement

open Ruby (RoundTrip)

theorem toNat_of_range {w : Nat} {n : Int} (h : 0 ≤ n ∧ n < 2^w) :
    n.toNat < 2^w ∧ (n.toNat : Int) = n := by
  have hn := Int.toNat_of_nonneg h.1
  have hlt := h.2
  rw [← hn] at hlt
  exact ⟨by exact_mod_cast hlt, hn⟩

theorem exists_datum {v : Ruby.Value} (h : v.InRange)
    (hshort : ∀ bs, v.bytes? = some bs → bs.length < 2^32) : ∃ d : Datum Bytes, v = d.toRuby := by
  cases v with
  | nil => exact ⟨.nil, rfl⟩
  | u8 v =>
    obtain ⟨hlt, hv⟩ := toNat_of_range h
    exact ⟨.u8 (UInt8.ofNat v.toNat), by rw [Datum.toRuby, UInt8.toNat_ofNat_of_lt' hlt, hv]⟩
  | u16 v =>
    obtain ⟨hlt, hv⟩ := toNat_of_range h
    exact ⟨.u16 (UInt16.ofNat v.toNat), by rw [Datum.toRuby, UInt16.toNat_ofNat_of_lt' hlt, hv]⟩
  | u32 v =>
    obtain ⟨hlt, hv⟩ := toNat_of_range h
    exact ⟨.u32 (UInt32.ofNat v.toNat), by rw [Datum.toRuby, UInt32.toNat_ofNat_of_lt' hlt, hv]⟩
  | u64 v =>
    obtain ⟨hlt, hv⟩ := toNat_of_range h
    exact ⟨.u64 (UInt64.ofNat v.toNat), by rw [Datum.toRuby, UInt64.toNat_ofNat_of_lt' hlt, hv]⟩
  | i8 v => exact ⟨.i8 (Int8.ofInt v), by rw [Datum.toRuby, Int8.toInt_ofInt_of_le h.1 h.2]⟩
  | i16 v => exact ⟨.i16 (Int16.ofInt v), by rw [Datum.toRuby, Int16.toInt_ofInt_of_le h.1 h.2]⟩
  | i32 v => exact ⟨.i32 (Int32.ofInt v), by rw [Datum.toRuby, Int32.toInt_ofInt_of_le h.1 h.2]⟩
  | i64 v => exact ⟨.i64 (Int64.ofInt v), by rw [Datum.toRuby, Int64.toInt_ofInt_of_le h.1 h.2]⟩
  | bool v => exact ⟨.bool v, rfl⟩
  | float v => exact ⟨.float v, rfl⟩
  | double v => exact ⟨.double v, rfl⟩
  | string v => exact ⟨.string ⟨v.bytes, hshort _ rfl⟩, congrArg Ruby.Value.string h⟩
  | blob v => exact ⟨.blob ⟨v.bytes, hshort _ rfl⟩, congrArg Ruby.Value.blob h⟩

theorem decode_hello (rest : List UInt8) : Ruby.MessageDecoder.decode (0 :: rest) = none := by
  rw [Ruby.MessageDecoder.decode, Ruby.Base.decode_of_getUint
    (Ruby.InputCodec.getUint_small (by decide) rest)]
  rfl

theorem decode_helloHello (rest : List UInt8) : Ruby.MessageDecoder.decode (1 :: rest) = none := by
  rw [Ruby.MessageDecoder.decode, Ruby.Base.decode_of_getUint
    (Ruby.InputCodec.getUint_small (by decide) rest)]
  rfl

/-- A NameError, if not something before it. -/
theorem decode_command (rest : List UInt8) : Ruby.MessageDecoder.decode (3 :: rest) = none := by
  have hdecode : Ruby.Base.decode (3 :: rest) = Ruby.Command.decode rest :=
    Ruby.Base.decode_of_getUint (Ruby.InputCodec.getUint_small (by decide) rest)
  rw [Ruby.MessageDecoder.decode, hdecode]
  cases h : Ruby.Command.decode rest with
  | error e => rfl
  | ok r =>
    obtain ⟨_, _, -, hrun⟩ := Decoder.bind_eq_ok h
    obtain ⟨_, _, -, hrun⟩ := Decoder.bind_eq_ok hrun
    split_ifs at hrun <;> cases hrun

theorem alert_encode (aid : Nat) (value : Ruby.Value) :
    (Ruby.Alert.mk aid value).encode = 5 :: Varint.encode aid ++ Ruby.Base.putValue value := by
  simp only [Ruby.Alert.encode, Ruby.OutputCodec.putUint_eq]
  simp [Ruby.Alert.tag, Varint.encode, Varint.short, octets]

/-- A string of 2^32 bytes or more goes out with a size that has lost its top. -/
theorem getString_long {bs : List UInt8} (h : 2^32 ≤ bs.length) :
    ∃ bs' rest, bs'.length < bs.length ∧
      Ruby.InputCodec.getString (Varint.encode bs.length ++ bs) = .ok (.binary bs', rest) := by
  have hsize : Varint.encode bs.length = Varint.long 4 bs.length := by
    rw [Varint.encode, if_neg (by omega), if_neg (by omega), if_neg (by omega),
      if_neg (by omega)]
  have hget := Ruby.InputCodec.getUint_reads.long 4 bs.length (by decide) (by decide) bs
  have hfit : bs.length % 256^4 ≤ bs.length := Nat.mod_le _ _
  refine ⟨bs.take (bs.length % 256^4), bs.drop (bs.length % 256^4), ?_, ?_⟩
  · rw [List.length_take, Nat.min_eq_left hfit]
    omega
  · rw [hsize, Ruby.InputCodec.getString, Decoder.bind_ok hget]
    exact Decoder.bind_ok (if_pos hfit)

/-- The tag leads back to the type. -/
theorem getValue_putValue (value : Ruby.Value) : Ruby.Base.getValue (Ruby.Base.putValue value) =
    Ruby.Base.getTyped value.type (Ruby.Base.putTyped value) := by
  rw [Ruby.Base.putValue, putU8_tag, List.singleton_append, Ruby.Base.getValue,
    Decoder.bind_ok (Ruby.InputCodec.getByte_cons _ _)]
  cases value <;> rfl

theorem getValue_long {v : Ruby.Value} {bs : List UInt8} (hv : v.InRange)
    (hbs : v.bytes? = some bs) (h : 2^32 ≤ bs.length) :
    ∃ v' bs' rest, v'.bytes? = some bs' ∧ bs'.length < bs.length ∧
      Ruby.Base.getValue (Ruby.Base.putValue v) = .ok (v', rest) := by
  obtain ⟨bs', rest, hlt, hget⟩ := getString_long h
  have hput : Ruby.OutputCodec.putString (.binary bs) = Varint.encode bs.length ++ bs := by
    rw [Ruby.OutputCodec.putString, Ruby.OutputCodec.putUint_eq]
    rfl
  rw [← hput] at hget
  cases v with
  | string v =>
    obtain rfl : v = .binary bs := Option.some.inj hbs ▸ hv
    refine ⟨.string (.binary bs'), bs', rest, rfl, hlt, ?_⟩
    rw [getValue_putValue]
    exact Decoder.bind_ok hget
  | blob v =>
    obtain rfl : v = .binary bs := Option.some.inj hbs ▸ hv
    refine ⟨.blob (.binary bs'), bs', rest, rfl, hlt, ?_⟩
    rw [getValue_putValue]
    exact Decoder.bind_ok hget
  | _ => cases hbs

theorem decode_alert_encode {aid : Nat} {value value' : Ruby.Value} {rest : List UInt8}
    (haid : aid < 2^32)
    (h : Ruby.Base.getValue (Ruby.Base.putValue value) = .ok (value', rest)) :
    Ruby.MessageDecoder.decode (Ruby.Alert.mk aid value).encode = some (.alert ⟨aid, value'⟩) := by
  have haid' := Ruby.InputCodec.getUint_reads.encode haid (Ruby.Base.putValue value)
  have hrun : Ruby.Alert.decode (Varint.encode aid ++ Ruby.Base.putValue value) =
      .ok (some (.alert ⟨aid, value'⟩), rest) := by
    rw [Ruby.Alert.decode, Decoder.bind_ok haid', Decoder.bind_ok h]
    rfl
  rw [alert_encode, List.cons_append, Ruby.MessageDecoder.decode, Ruby.Base.decode_alert, hrun]

theorem alert_roundTrip_same {aid : Nat} {value : Ruby.Value UInt64} {value' : Ruby.Value}
    {rest : List UInt8} (haid : aid < 2^32)
    (h : Ruby.Base.getValue (Ruby.Base.putValue (value.map Binary64.narrow)) =
      .ok (value', rest)) :
    RoundTrip (.alert ⟨aid, value⟩) ↔ value.Same (value'.map Binary32.widen) := by
  have hdecode := congrArg (Option.map fun msg => msg.any.map Binary32.widen)
    (decode_alert_encode haid h)
  constructor
  · intro hround
    obtain ⟨_, m', ⟨⟩, hm', hsame⟩ := hround
    cases hdecode.symm.trans hm'
    exact hsame.2
  · intro hsame
    exact ⟨_, _, rfl, hdecode, rfl, hsame⟩

theorem not_roundTrip {m : Ruby.AnyMessage UInt64}
    (hnone : ∀ frame, m.encodeFloats = .ok frame → Ruby.MessageDecoder.decode frame = none) :
    ¬ RoundTrip m := by
  intro h
  obtain ⟨frame, m', hencode, hdecode, -⟩ := h
  rw [Ruby.MessageDecoder.decodeFloats, hnone frame hencode] at hdecode
  cases hdecode

theorem alert_roundTrip_iff {aid : Nat} {value : Ruby.Value UInt64} (haid : aid < 2^32)
    (hvalue : value.InRange) :
    RoundTrip (.alert ⟨aid, value⟩) ↔
      value.Exact ∧ ∀ bs, value.bytes? = some bs → bs.length < 2^32 := by
  have hpacked := (Ruby.Value.inRange_map Binary64.narrow value).mpr hvalue
  by_cases hshort : ∀ bs, value.bytes? = some bs → bs.length < 2^32
  · obtain ⟨d, hd⟩ := exists_datum hpacked (by rwa [Ruby.Value.bytes?_map])
    have hget := (getValue_decodes d).whole
    rw [← putValue_eq, ← hd] at hget
    rw [alert_roundTrip_same haid hget, Ruby.Value.same_map_iff, and_iff_left hshort]
  · refine iff_of_false ?_ fun h => hshort h.2
    push Not at hshort
    obtain ⟨bs, hbs, hlong⟩ := hshort
    obtain ⟨v', bs', rest, hbs', hlt, hget⟩ :=
      getValue_long hpacked ((Ruby.Value.bytes?_map _ value).trans hbs) hlong
    rw [alert_roundTrip_same haid hget]
    intro hsame
    have heq := hsame.bytes?_eq
    rw [Ruby.Value.bytes?_map, hbs', hbs] at heq
    exact Nat.ne_of_lt hlt (congrArg List.length (Option.some.inj heq))

/-- Only an Alert comes back: the other classes cannot be decoded, and a Response not encoded. -/
theorem roundTrip_iff (m : Ruby.AnyMessage UInt64) (h : m.InRange) :
    RoundTrip m ↔ ∃ msg, m = .alert msg ∧ msg.value.Exact ∧
      ∀ bs, msg.value.bytes? = some bs → bs.length < 2^32 := by
  cases m with
  | hello msg =>
    refine iff_of_false (not_roundTrip ?_) (fun ⟨_, heq, _⟩ => by cases heq)
    intro _ hencode
    cases hencode
    exact decode_hello _
  | helloHello msg =>
    refine iff_of_false (not_roundTrip ?_) (fun ⟨_, heq, _⟩ => by cases heq)
    intro _ hencode
    cases hencode
    exact decode_helloHello _
  | command msg =>
    refine iff_of_false (not_roundTrip ?_) (fun ⟨_, heq, _⟩ => by cases heq)
    intro _ hencode
    cases hencode
    rw [Ruby.Command.encode_eq]
    exact decode_command _
  | response msg =>
    refine iff_of_false (not_roundTrip ?_) (fun ⟨_, heq, _⟩ => by cases heq)
    intro frame hencode
    obtain ⟨confirmed, invokeId, type⟩ := msg
    cases type <;> cases hencode
  | alert msg =>
    refine (alert_roundTrip_iff h.1 h.2).trans ⟨fun hexact => ⟨msg, rfl, hexact⟩, ?_⟩
    intro hsome
    obtain ⟨_, ⟨⟩, hexact⟩ := hsome
    exact hexact

/-- An alert with a string. -/
theorem roundTrip_alert : RoundTrip (.alert ⟨300, .string (.binary [104, 105])⟩) := by
  apply (roundTrip_iff (.alert ⟨300, .string (.binary [104, 105])⟩) ⟨by decide, rfl⟩).mpr
  refine ⟨_, rfl, trivial, fun bs hbs => ?_⟩
  cases hbs
  decide

/-- The read of an object is encoded to four bytes, of which nothing is decoded. -/
theorem roundTrip_read :
    (Ruby.AnyMessage.command ⟨true, 1, .read ⟨5⟩⟩).encodeFloats = .ok [3, 0x81, 1, 5] ∧
    Ruby.MessageDecoder.decodeFloats [3, 0x81, 1, 5] = none ∧
    ¬ RoundTrip (.command ⟨true, 1, .read ⟨5⟩⟩) := by
  have hencode : (Ruby.AnyMessage.command ⟨true, 1, .read ⟨5⟩⟩).encodeFloats =
      .ok [3, 0x81, 1, 5] := by
    decide
  have hdecode := decode_command [0x81, 1, 5]
  refine ⟨hencode, congrArg (Option.map _) hdecode, not_roundTrip fun frame hframe => ?_⟩
  cases hencode.symm.trans hframe
  exact hdecode

end Agreement

end Aloof
