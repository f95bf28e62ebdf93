import Aloof.C.DataProof
import Aloof.Ruby.CodecProof
import Aloof.Ruby.Message

namespace Aloof

open Framework

/-- The same value as an argument or a result of the Ruby methods. -/
def Datum.toRuby : Datum Bytes → Ruby.Value
  | .nil => .nil
  | .u8 v => .u8 v.toNat | .u16 v => .u16 v.toNat | .u32 v => .u32 v.toNat | .u64 v => .u64 v.toNat
  | .i8 v => .i8 v.toInt | .i16 v => .i16 v.toInt | .i32 v => .i32 v.toInt | .i64 v => .i64 v.toInt
  | .bool v => .bool v
  | .float v => .float v | .double v => .double v
  | .string v => .string (.binary v.data) | .blob v => .blob (.binary v.data)

namespace Agreement

/-- What follows the tag: the value, or the size of a string. -/
def scalar : Datum Bytes → List UInt8
  | .nil => []
  | .u8 v => octets 1 v.toNat
  | .u16 v => octets 2 v.toNat
  | .u32 v => octets 4 v.toNat
  | .u64 v => octets 8 v.toNat
  | .i8 v => octets 1 v.toUInt8.toNat
  | .i16 v => octets 2 v.toUInt16.toNat
  | .i32 v => octets 4 v.toUInt32.toNat
  | .i64 v => octets 8 v.toUInt64.toNat
  | .bool v => [if v then 1 else 0]
  | .float v => octets 4 v.toNat
  | .double v => octets 8 v.toNat
  | .string v | .blob v => Varint.encode v.data.length

def head (d : Datum Bytes) : List UInt8 := C.dataTypeCode d.type :: scalar d

def payload (d : Datum Bytes) : List UInt8 := (d.string?.map Bytes.data).getD []

theorem datumOctets_eq {d : Datum Bytes} (h : ∀ b, d.string? = some b → ¬ C.Oer.Clipped b.size) :
    C.datumOctets d = head d ++ payload d := by
  cases d
  case string b =>
    simp [C.datumOctets, head, scalar, payload, Datum.string?, C.Oer.uintOctets_eq (h b rfl),
      b.toNat_size]
  case blob b =>
    simp [C.datumOctets, head, scalar, payload, Datum.string?, C.Oer.uintOctets_eq (h b rfl),
      b.toNat_size]
  all_goals simp [C.datumOctets, head, scalar, payload, Datum.string?, octets]

theorem putU8_tag (t : DataType) :
    Ruby.OutputCodec.putU8 (Ruby.Base.types.idxOf t) = [C.dataTypeCode t] := by
  cases t <;> decide

theorem type_toRuby (d : Datum Bytes) : d.toRuby.type = d.type := by
  cases d <;> rfl

theorem putValue_eq (d : Datum Bytes) : Ruby.Base.putValue d.toRuby = head d ++ payload d := by
  have htyped : C.dataTypeCode d.type :: Ruby.Base.putTyped d.toRuby = head d ++ payload d := by
    cases d with
    | nil => rfl
    | u8 v => exact congrArg _ ((Ruby.pack_natCast 1 _).trans (List.append_nil _).symm)
    | u16 v => exact congrArg _ ((Ruby.pack_natCast 2 _).trans (List.append_nil _).symm)
    | u32 v => exact congrArg _ ((Ruby.pack_natCast 4 _).trans (List.append_nil _).symm)
    | u64 v => exact congrArg _ ((Ruby.pack_natCast 8 _).trans (List.append_nil _).symm)
    | i8 v => exact congrArg _ ((Ruby.pack_toInt rfl v.toBitVec).trans (List.append_nil _).symm)
    | i16 v => exact congrArg _ ((Ruby.pack_toInt rfl v.toBitVec).trans (List.append_nil _).symm)
    | i32 v => exact congrArg _ ((Ruby.pack_toInt rfl v.toBitVec).trans (List.append_nil _).symm)
    | i64 v => exact congrArg _ ((Ruby.pack_toInt rfl v.toBitVec).trans (List.append_nil _).symm)
    | bool v => cases v <;> rfl
    | float v => exact congrArg _ ((Ruby.pack_natCast 4 _).trans (List.append_nil _).symm)
    | double v => exact congrArg _ ((Ruby.pack_natCast 8 _).trans (List.append_nil _).symm)
    | string v => exact congrArg (fun n => _ :: (n ++ v.data)) (Ruby.OutputCodec.putUint_eq _)
    | blob v => exact congrArg (fun n => _ :: (n ++ v.data)) (Ruby.OutputCodec.putUint_eq _)
  rw [Ruby.Base.putValue, type_toRuby, putU8_tag, List.singleton_append, htyped]

theorem data_decodes (d : Datum Bytes) :
    Decoder.Decodes C.Grammar.data (head d) (d.map Bytes.size) := by
  intro rest
  rw [C.Grammar.data, head, List.cons_append, Decoder.bind_ok (C.Grammar.octet_cons _ _)]
  cases d with
  | nil => rfl
  | u8 v => exact (C.Grammar.octet_decodes v).map Datum.u8 rest
  | u16 v => exact (C.Grammar.u16_decodes v).map Datum.u16 rest
  | u32 v => exact (C.Grammar.u32_decodes v).map Datum.u32 rest
  | u64 v => exact (C.Grammar.u64_decodes v).map Datum.u64 rest
  | i8 v => exact (C.Grammar.octet_decodes v.toUInt8).map (fun b => Datum.i8 b.toInt8) rest
  | i16 v => exact (C.Grammar.u16_decodes v.toUInt16).map (fun b => Datum.i16 b.toInt16) rest
  | i32 v => exact (C.Grammar.u32_decodes v.toUInt32).map (fun b => Datum.i32 b.toInt32) rest
  | i64 v => exact (C.Grammar.u64_decodes v.toUInt64).map (fun b => Datum.i64 b.toInt64) rest
  | bool v => exact (C.Grammar.bool_decodes v).map Datum.bool rest
  | float v => exact (C.Grammar.u32_decodes v).map Datum.float rest
  | double v => exact (C.Grammar.u64_decodes v).map Datum.double rest
  | string v => exact (C.Grammar.uint_reads.encode v.size_lt).map Datum.string rest
  | blob v => exact (C.Grammar.uint_reads.encode v.size_lt).map Datum.blob rest

theorem getValue_decodes (d : Datum Bytes) :
    Decoder.Decodes Ruby.Base.getValue (head d ++ payload d) d.toRuby := by
  intro rest
  rw [Ruby.Base.getValue, head, List.cons_append, List.cons_append,
    Decoder.bind_ok (Ruby.InputCodec.getByte_cons _ _), List.append_assoc]
  cases d with
  | nil => rfl
  | u8 v => exact (Ruby.InputCodec.unsigned_decodes v.toNat_lt).map Ruby.Value.u8 rest
  | u16 v => exact (Ruby.InputCodec.unsigned_decodes v.toNat_lt).map Ruby.Value.u16 rest
  | u32 v => exact (Ruby.InputCodec.unsigned_decodes v.toNat_lt).map Ruby.Value.u32 rest
  | u64 v => exact (Ruby.InputCodec.unsigned_decodes v.toNat_lt).map Ruby.Value.u64 rest
  | i8 v => exact (Ruby.InputCodec.signed_decodes rfl v.toBitVec).map Ruby.Value.i8 rest
  | i16 v => exact (Ruby.InputCodec.signed_decodes rfl v.toBitVec).map Ruby.Value.i16 rest
  | i32 v => exact (Ruby.InputCodec.signed_decodes rfl v.toBitVec).map Ruby.Value.i32 rest
  | i64 v => exact (Ruby.InputCodec.signed_decodes rfl v.toBitVec).map Ruby.Value.i64 rest
  | bool v => cases v <;> rfl
  | float v => exact (Ruby.InputCodec.getSingle_decodes v).map Ruby.Value.float rest
  | double v => exact (Ruby.InputCodec.getDouble_decodes v).map Ruby.Value.double rest
  | string v =>
    have h := (Ruby.InputCodec.getString_decodes v.data v.size_lt).map
      (Ruby.Value.string (φ := UInt32)) rest
    rwa [List.append_assoc] at h
  | blob v =>
    have h := (Ruby.InputCodec.getString_decodes v.data v.size_lt).map
      (Ruby.Value.blob (φ := UInt32)) rest
    rwa [List.append_assoc] at h

theorem clipped_data {b : Bytes} (h : C.Oer.Clipped b.size) : b.data ≠ [] := by
  intro hnil
  have hsize := b.toNat_size
  rw [hnil] at hsize
  rcases h with h | h <;> rw [h] at hsize <;> cases hsize

/-- A string whose size is clipped is taken for an empty one, and its bytes are left over. -/
theorem getValue_clipped {d : Datum Bytes} {b : Bytes} (hd : d.string? = some b)
    (hb : C.Oer.Clipped b.size) :
    ∃ value, Ruby.Base.getValue (C.datumOctets d) = .ok (value, b.data) ∧ value ≠ d.toRuby := by
  have hsize := C.Oer.uintOctets_decodes Ruby.InputCodec.getUint_reads b.size
  rw [if_pos hb] at hsize
  have hempty :
      Decoder.Decodes Ruby.InputCodec.getString (C.Oer.uintOctets b.size) (.binary []) := by
    have hnone := (Ruby.InputCodec.slice_decodes (List.length_nil (α := UInt8))).map
      Ruby.RubyString.binary
    have hget := hsize.bind (f := fun n => do
      return Ruby.RubyString.binary (← Ruby.InputCodec.slice n)) hnone
    rwa [List.append_nil] at hget
  have hne : Ruby.RubyString.binary [] ≠ Ruby.RubyString.binary b.data := by
    intro heq
    exact clipped_data hb (congrArg Ruby.RubyString.bytes heq).symm
  cases d with
  | string b' =>
    cases hd
    exact ⟨_, hempty.map Ruby.Value.string b.data, fun heq => hne (Ruby.Value.string.inj heq)⟩
  | blob b' =>
    cases hd
    exact ⟨_, hempty.map Ruby.Value.blob b.data, fun heq => hne (Ruby.Value.blob.inj heq)⟩
  | _ => cases hd

end Agreement

end Aloof
