import Aloof.C.Data
import Aloof.C.OerProof

namespace Aloof.C

open Framework

/-- What aloof_data_put_<type> writes. -/
def datumOctets (d : Datum Bytes) : List UInt8 :=
  dataTypeCode d.type ::
    match d with
    | .nil => []
    | .u8 v => [v]
    | .u16 v => octets 2 v.toNat
    | .u32 v => octets 4 v.toNat
    | .u64 v => octets 8 v.toNat
    | .i8 v => [v.toUInt8]
    | .i16 v => octets 2 v.toUInt16.toNat
    | .i32 v => octets 4 v.toUInt32.toNat
    | .i64 v => octets 8 v.toUInt64.toNat
    | .bool v => [if v then 1 else 0]
    | .float v => octets 4 v.toNat
    | .double v => octets 8 v.toNat
    | .string v | .blob v => Oer.uintOctets v.size ++ v.data

/-- There is always the tag. -/
theorem datumOctets_pos (d : Datum Bytes) : 0 < (datumOctets d).length := Nat.succ_pos _

/-- The Data choice, with the announced size standing for a string. -/
def Grammar.data : Decoder Unit UInt8 (Datum UInt32) := do
  let tag ← octet
  match Data.types[tag.toNat]? with
  | none => Decoder.fail ()
  | some .nil => return .nil
  | some .u8 => return .u8 (← octet)
  | some .u16 => return .u16 (← u16)
  | some .u32 => return .u32 (← u32)
  | some .u64 => return .u64 (← u64)
  | some .i8 => return .i8 (← octet).toInt8
  | some .i16 => return .i16 (← u16).toInt16
  | some .i32 => return .i32 (← u32).toInt32
  | some .i64 => return .i64 (← u64).toInt64
  | some .bool => return .bool (← bool)
  | some .float => return .float (← u32)
  | some .double => return .double (← u64)
  | some .string => return .string (← uint)
  | some .blob => return .blob (← uint)

theorem Grammar.data_stable : Decoder.Stable data := by
  apply octet_stable.bind
  intro tag
  rcases Data.types[tag.toNat]? with _ | t
  · exact .fail ()
  cases t
  case nil => exact .pure _
  case u8 => exact octet_stable.map Datum.u8
  case u16 => exact ((number_stable 2).map UInt16.ofNat).map Datum.u16
  case u32 => exact ((number_stable 4).map UInt32.ofNat).map Datum.u32
  case u64 => exact ((number_stable 8).map UInt64.ofNat).map Datum.u64
  case i8 => exact octet_stable.map fun v => Datum.i8 v.toInt8
  case i16 => exact ((number_stable 2).map UInt16.ofNat).map fun v => Datum.i16 v.toInt16
  case i32 => exact ((number_stable 4).map UInt32.ofNat).map fun v => Datum.i32 v.toInt32
  case i64 => exact ((number_stable 8).map UInt64.ofNat).map fun v => Datum.i64 v.toInt64
  case bool => exact bool_stable.map Datum.bool
  case float => exact ((number_stable 4).map UInt32.ofNat).map Datum.float
  case double => exact ((number_stable 8).map UInt64.ofNat).map Datum.double
  case string => exact uint_stable.map Datum.string
  case blob => exact uint_stable.map Datum.blob

namespace Data

theorem put_appends (d : Datum Bytes) : (put d).Appends (datumOctets d) := by
  have tagged {p : Putter} {bs : List UInt8} (t : DataType) (h : p.Appends bs) :
      ((Oer.putU8 (dataTypeCode t)).andThen p).Appends (dataTypeCode t :: bs) :=
    (Oer.putU8_appends _).andThen h
  cases d with
  | nil => exact Oer.putU8_appends _
  | u8 v => exact tagged .u8 (Oer.putU8_appends v)
  | u16 v => exact tagged .u16 (Oer.putU16_appends v)
  | u32 v => exact tagged .u32 (Oer.putU32_appends v)
  | u64 v => exact tagged .u64 (Oer.putU64_appends v)
  | i8 v => exact tagged .i8 (Oer.putU8_appends _)
  | i16 v => exact tagged .i16 (Oer.putU16_appends _)
  | i32 v => exact tagged .i32 (Oer.putU32_appends _)
  | i64 v => exact tagged .i64 (Oer.putU64_appends _)
  | bool v => exact tagged .bool (Oer.putU8_appends _)
  | float v => exact tagged .float (Oer.putU32_appends v)
  | double v => exact tagged .double (Oer.putU64_appends v)
  | string v => exact tagged .string (Oer.putString_appends v)
  | blob v => exact tagged .blob (Oer.putString_appends v)

private theorem window_implements (scratch : UInt8) (f : UInt32 → Datum UInt32) :
    (do return f (← getWindow scratch).size : Getter (Datum UInt32)).Implements
      (do return f (← Grammar.uint)) := by
  simp only [getWindow, bind_assoc]
  apply (Oer.getUint_implements scratch).bind
  intro size s
  exact Getter.ImplementsAt.of_ok (n := 0) (Nat.zero_le _) (by rw [Stream.skip_zero]; rfl) rfl

theorem get_implements (scratch : UInt8) :
    (do return (← get scratch).map StringRx.size : Getter (Datum UInt32)).Implements
      Grammar.data := by
  simp only [get, bind_assoc]
  apply Oer.getU8_implements.bind
  intro tag
  rcases types[tag.toNat]? with _ | t
  · exact Getter.Implements.fail ()
  cases t <;> simp only [bind_assoc, pure_bind, Datum.map, Oer.getI8, Oer.getI16, Oer.getI32,
    Oer.getI64, Oer.getFloat, Oer.getDouble]
  case nil => exact Getter.Implements.pure _
  case u8 => exact Oer.getU8_implements.map Datum.u8
  case u16 => exact Oer.getU16_implements.map Datum.u16
  case u32 => exact Oer.getU32_implements.map Datum.u32
  case u64 => exact Oer.getU64_implements.map Datum.u64
  case i8 => exact Oer.getU8_implements.map fun v => Datum.i8 v.toInt8
  case i16 => exact Oer.getU16_implements.map fun v => Datum.i16 v.toInt16
  case i32 => exact Oer.getU32_implements.map fun v => Datum.i32 v.toInt32
  case i64 => exact Oer.getU64_implements.map fun v => Datum.i64 v.toInt64
  case bool => exact Oer.getBool_implements.map Datum.bool
  case float => exact Oer.getU32_implements.map Datum.float
  case double => exact Oer.getU64_implements.map Datum.double
  case string => exact window_implements scratch Datum.string
  case blob => exact window_implements scratch Datum.blob

/-- A received string starts where the reading of its size ended. -/
theorem get_start {scratch : UInt8} {s s' : Stream} {d : DataRx} {w : StringRx}
    (h : get scratch s = (some d, s')) (hw : d.string? = some w) : w.start = s'.pos := by
  have window {k : StringRx → DataRx} {t : Stream} (hk : ∀ v, (k v).string? = some v)
      (hrun : (do return k (← getWindow scratch) : Getter DataRx) t = (some d, s')) :
      w.start = s'.pos := by
    obtain ⟨v, t', hv, hd⟩ := Getter.bind_eq_some hrun
    obtain ⟨size, t'', -, hw'⟩ := Getter.bind_eq_some hv
    cases hw'
    cases hd
    rw [hk] at hw
    cases hw
    rfl
  have plain {α : Type} {g : Getter α} {k : α → DataRx} {t : Stream}
      (hk : ∀ v, (k v).string? = none)
      (hrun : (do return k (← g) : Getter DataRx) t = (some d, s')) : w.start = s'.pos := by
    obtain ⟨v, t', -, hd⟩ := Getter.bind_eq_some hrun
    cases hd
    rw [hk] at hw
    cases hw
  obtain ⟨tag, t, -, hrun⟩ := Getter.bind_eq_some h
  rcases htag : types[tag.toNat]? with _ | ty <;> simp only [htag] at hrun
  · cases hrun
  cases ty
  case nil => cases hrun; cases hw
  case string => exact window (k := Datum.string) (fun _ => rfl) hrun
  case blob => exact window (k := Datum.blob) (fun _ => rfl) hrun
  all_goals exact plain (fun _ => rfl) hrun

theorem getUint_scratch (a b : UInt8) : Oer.getUint a = Oer.getUint b := by
  unfold Oer.getUint Oer.decodeVarint
  simp only [Bool.false_and]

theorem get_scratch (a b : UInt8) : get a = get b := by
  simp only [get, getWindow, getUint_scratch a b]

/-- The bytes of the string are taken to start with the next unread one. -/
structure Level (size : UInt32) (d : DataRx) (s : Stream) : Prop where
  string : d.string? = some ⟨size, s.pos⟩
  readable : 0 < size.toNat → s.readable = true

/-- The number of bytes that one call returns. Start and position having moved on together, what
is left of the string is always taken to be all of it. -/
def returned (size : UInt32) (s : Stream) (max : UInt32) : Nat :=
  if s.pos.toNat + size.toNat < 2^32 ∧ min size.toNat max.toNat ≤ s.rest.length then
    min size.toNat max.toNat
  else 0

theorem returned_le (size : UInt32) (s : Stream) (max : UInt32) :
    returned size s max ≤ s.rest.length := by
  unfold returned
  split_ifs with h
  · exact h.2
  · exact Nat.zero_le _

theorem toNat_smaller (size max : UInt32) :
    (if size > max then max else size).toNat = min size.toNat max.toNat := by
  have hgt : size > max ↔ max.toNat < size.toNat := UInt32.lt_iff_toNat_lt
  split_ifs with hmax
  · rw [hgt] at hmax
    omega
  · rw [hgt] at hmax
    omega

theorem getString_spec {size : UInt32} {d : DataRx} {s : Stream} (h : Level size d s)
    (max : UInt32) :
    (getString d s max).retval.toNat = returned size s max ∧
    (getString d s max).value = s.rest.take (returned size s max) ∧
    (getString d s max).s = s.skip (returned size s max) ∧
    Level size (getString d s max).self (getString d s max).s := by
  have hsize := size.toNat_lt
  have hpos := s.pos.toNat_lt
  have hleft : s.tell + size - s.pos = size := by
    rw [Stream.tell, UInt32.add_comm, UInt32.add_sub_cancel]
  have hpast : s.pos < s.tell + size ↔ 0 < size.toNat ∧ s.pos.toNat + size.toNat < 2^32 := by
    rw [UInt32.lt_iff_toNat_lt, Stream.tell, UInt32.toNat_add]
    omega
  obtain ⟨retval, hret, htoNat⟩ : ∃ retval, (if size > max then max else size) = retval ∧
      retval.toNat = min size.toNat max.toNat := ⟨_, rfl, toNat_smaller size max⟩
  by_cases hlt : s.pos < s.tell + size
  · by_cases hle : min size.toNat max.toNat ≤ s.rest.length
    · have hfit : retval.toNat ≤ s.rest.length := by rw [htoNat]; exact hle
      have hread := Stream.read_of_le (h.readable (hpast.mp hlt).1) hfit
      have hrun : getString d s max = ⟨retval, s.rest.take retval.toNat,
          d.map fun w => { w with start := w.start + retval }, s.skip retval.toNat⟩ := by
        simp only [getString, h.string, if_pos hlt, hleft, hret, hread]
      have hn : returned size s max = retval.toNat := by
        rw [returned, if_pos ⟨(hpast.mp hlt).2, hle⟩, htoNat]
      rw [hrun, hn]
      refine ⟨rfl, rfl, rfl, ?_, h.readable⟩
      rw [Datum.string?_map, h.string, Stream.pos_skip hfit]
      rfl
    · have hread : s.read retval = (none, s) := Stream.read_of_lt (by omega)
      have hrun : getString d s max = ⟨0, [], d, s⟩ := by
        simp only [getString, h.string, if_pos hlt, hleft, hret, hread]
      have hn : returned size s max = 0 := by rw [returned, if_neg (fun hc => hle hc.2)]
      rw [hrun, hn]
      exact ⟨rfl, rfl, s.skip_zero.symm, h⟩
  · have hrun : getString d s max = ⟨0, [], d, s⟩ := by
      simp only [getString, h.string, if_neg hlt]
    have hn : returned size s max = 0 := by
      unfold returned
      split_ifs with hc
      · rw [hpast] at hlt
        omega
      · rfl
    rw [hrun, hn]
    exact ⟨rfl, rfl, s.skip_zero.symm, h⟩

end Data

/-- One chunk with room for the whole string gets the whole string. -/
theorem Data.getString_whole {d : DataRx} {s : Stream} {w : StringRx} {max : UInt32}
    (hd : d.string? = some w) (hstart : w.start = s.pos) (hlen : w.size.toNat ≤ s.rest.length)
    (hmax : w.size ≤ max) :
    (getString d s max).retval = w.size ∧
      (getString d s max).value = s.rest.take w.size.toNat ∧
      (getString d s max).s = s.skip w.size.toNat := by
  have hlevel : Level w.size d s :=
    ⟨by rw [hd, ← hstart], fun hpos => Stream.readable_of_rest (by omega)⟩
  obtain ⟨hretval, hvalue, hs, -⟩ := getString_spec hlevel max
  have hall : returned w.size s max = w.size.toNat := by
    have hrest := s.length_rest_le
    have hbuf := s.length_lt
    have hlast := s.pos_le_length
    rw [returned, Nat.min_eq_left (UInt32.le_iff_toNat_le.mp hmax), if_pos ⟨by omega, hlen⟩]
  rw [hall] at hretval hvalue hs
  exact ⟨UInt32.toNat_inj.mp hretval, hvalue, hs⟩

/-- What a function can do to a received value and its stream through aloof_data_get_string. -/
inductive StringReads : DataRx → Stream → DataRx → Stream → Prop
  | refl (d : DataRx) (s : Stream) : StringReads d s d s
  | step {d d' : DataRx} {s s' : Stream} (max : UInt32) :
      StringReads (Data.getString d s max).self (Data.getString d s max).s d' s' →
      StringReads d s d' s'

theorem Stream.read_skips (s : Stream) (size : UInt32) :
    ∃ n ≤ s.rest.length, (s.read size).2 = s.skip n := by
  by_cases h : s.readable = true ∧ size.toNat ≤ s.rest.length
  · exact ⟨size.toNat, h.2, by rw [Stream.read_of_le h.1 h.2]⟩
  · refine ⟨0, Nat.zero_le _, ?_⟩
    rw [Stream.skip_zero]
    by_cases hlt : s.rest.length < size.toNat
    · rw [Stream.read_of_lt hlt]
    · have hr : ¬ s.readable = true := fun hr => h ⟨hr, by omega⟩
      rw [Stream.read, if_neg hr]

/-- One chunk moves forward and leaves the kind and the size of the value alone. -/
theorem Data.getString_moves (d : DataRx) (s : Stream) (max : UInt32) :
    (∃ n ≤ s.rest.length, (Data.getString d s max).s = s.skip n) ∧
    (Data.getString d s max).self.map StringRx.size = d.map StringRx.size := by
  have keep : (∃ n ≤ s.rest.length, s = s.skip n) ∧
      d.map StringRx.size = d.map StringRx.size := ⟨⟨0, Nat.zero_le _, by simp⟩, rfl⟩
  unfold Data.getString
  split
  · exact keep
  · split_ifs
    · dsimp only
      split
      next hread =>
        obtain ⟨n, hn, hs⟩ := s.read_skips _
        rw [hread] at hs
        refine ⟨⟨n, hn, hs⟩, ?_⟩
        cases d <;> rfl
      next hread =>
        obtain ⟨n, hn, hs⟩ := s.read_skips _
        rw [hread] at hs
        exact ⟨⟨n, hn, hs⟩, rfl⟩
    · exact keep

/-- No more is stored than the caller has room for. -/
theorem Data.length_getString_le (d : DataRx) (s : Stream) (max : UInt32) :
    (Data.getString d s max).value.length ≤ max.toNat := by
  unfold Data.getString
  split
  · exact Nat.zero_le _
  · split_ifs
    · dsimp only
      split
      next hread =>
        have hlength := Stream.length_read_le hread
        rw [Data.toNat_smaller] at hlength
        exact Nat.le_trans hlength (Nat.min_le_right _ _)
      next => exact Nat.zero_le _
    · exact Nat.zero_le _

theorem Data.getStringSize_eq (d : DataRx) :
    Data.getStringSize d = ((d.map StringRx.size).string?).getD 0 := by
  cases d <;> rfl

theorem Data.getStringSize_getString (d : DataRx) (s : Stream) (max : UInt32) :
    Data.getStringSize (Data.getString d s max).self = Data.getStringSize d := by
  rw [Data.getStringSize_eq, Data.getStringSize_eq, (Data.getString_moves d s max).2]

/-- There is nothing to get from a value of another kind. -/
theorem StringReads.other {d d' : DataRx} {s s' : Stream} (h : StringReads d s d' s')
    (hd : d.string? = none) : s' = s := by
  induction h with
  | refl d s => rfl
  | @step d d' s s' max _ ih =>
    have hsame : Data.getString d s max = ⟨0, [], d, s⟩ := by simp only [Data.getString, hd]
    rw [hsame] at ih
    exact ih hd

theorem StringReads.moves {d d' : DataRx} {s s' : Stream} (h : StringReads d s d' s') :
    (∃ n ≤ s.rest.length, s' = s.skip n) ∧ d'.map StringRx.size = d.map StringRx.size := by
  induction h with
  | refl d s => exact ⟨⟨0, Nat.zero_le _, by simp⟩, rfl⟩
  | @step d d' s s' max _ ih =>
    obtain ⟨⟨n, hn, hs⟩, hd⟩ := Data.getString_moves d s max
    obtain ⟨⟨m, hm, hs'⟩, hd'⟩ := ih
    rw [hs, Stream.rest_skip hn, List.length_drop] at hm
    refine ⟨⟨n + m, by omega, ?_⟩, hd'.trans hd⟩
    rw [hs', hs, Stream.skip_skip (by omega)]

end Aloof.C
