import Aloof.Agreement.Command
import Aloof.Agreement.RoundTrip

namespace Aloof

open Framework

/-- The integer, for the kinds that have one. -/
def Datum.integer? {σ : Type} : Datum σ → Option Int
  | .u8 v => some v.toNat | .u16 v => some v.toNat | .u32 v => some v.toNat | .u64 v => some v.toNat
  | .i8 v => some v.toInt | .i16 v => some v.toInt | .i32 v => some v.toInt | .i64 v => some v.toInt
  | _ => none

theorem Datum.integer?_map {σ τ : Type} (f : σ → τ) (d : Datum σ) :
    (d.map f).integer? = d.integer? := by
  cases d <;> rfl

namespace Ruby

def Value.integer? : Value → Option Int
  | .u8 v | .u16 v | .u32 v | .u64 v | .i8 v | .i16 v | .i32 v | .i64 v => some v
  | _ => none

/-- The one exception of pack. -/
inductive PackError where
  | range
  deriving DecidableEq

/-- Not every Ruby packs an integer for which the directive has no room; raises tells which values
this one refuses. -/
def WriteCommand.encodeUnless (raises : Value → Bool) (self : WriteCommand) :
    Except PackError (List UInt8) :=
  if raises self.value then .error .range else .ok self.encode

/-- The low bits of the value, as a value of the type. -/
def Value.reduce : Value → Value
  | .u8 v => .u8 (v % 2^8)
  | .u16 v => .u16 (v % 2^16)
  | .u32 v => .u32 (v % 2^32)
  | .u64 v => .u64 (v % 2^64)
  | .i8 v => .i8 (v.bmod (2^8))
  | .i16 v => .i16 (v.bmod (2^16))
  | .i32 v => .i32 (v.bmod (2^32))
  | .i64 v => .i64 (v.bmod (2^64))
  | v => v

theorem pack_emod {k : Nat} (v : Int) {m : Int} (hm : m = 256^k) : pack k (v % m) = pack k v := by
  rw [pack, pack, hm, Int.emod_emod_of_dvd _ (dvd_refl _)]

theorem pack_bmod {k m : Nat} (v : Int) (hm : m = 256^k) : pack k (v.bmod m) = pack k v := by
  have hmod : v.bmod m % 256^k = v % 256^k := by
    have hpow : (256 : Int)^k = (m : Int) := by exact_mod_cast hm.symm
    rw [hpow, Int.bmod_emod]
  rw [pack, pack, hmod]

/-- pack does not tell a number from its reduction. -/
theorem Base.putValue_reduce (value : Value) :
    Base.putValue value.reduce = Base.putValue value := by
  cases value with
  | u8 v => exact congrArg (_ ++ ·) (pack_emod v (k := 1) (by norm_num))
  | u16 v => exact congrArg (_ ++ ·) (pack_emod v (k := 2) (by norm_num))
  | u32 v => exact congrArg (_ ++ ·) (pack_emod v (k := 4) (by norm_num))
  | u64 v => exact congrArg (_ ++ ·) (pack_emod v (k := 8) (by norm_num))
  | i8 v => exact congrArg (_ ++ ·) (pack_bmod v (k := 1) (by norm_num))
  | i16 v => exact congrArg (_ ++ ·) (pack_bmod v (k := 2) (by norm_num))
  | i32 v => exact congrArg (_ ++ ·) (pack_bmod v (k := 4) (by norm_num))
  | i64 v => exact congrArg (_ ++ ·) (pack_bmod v (k := 8) (by norm_num))
  | _ => rfl

theorem Value.integer?_reduce {value : Value} {n : Int} (h : value.integer? = some n) :
    ∃ m, value.reduce.integer? = some m := by
  cases value <;> first | exact ⟨_, rfl⟩ | cases h

/-- An integer has no bytes of its own. -/
theorem Value.bytes?_of_integer? {value : Value} {n : Int} (h : value.integer? = some n) :
    value.bytes? = none := by
  cases value <;> first | rfl | cases h

theorem Value.type_reduce (value : Value) : value.reduce.type = value.type := by
  cases value <;> rfl

theorem emod_range (v : Int) {m : Int} (hm : 0 < m) : 0 ≤ v % m ∧ v % m < m :=
  ⟨Int.emod_nonneg v (Int.ne_of_gt hm), Int.emod_lt_of_pos v hm⟩

theorem bmod_range (v : Int) {m : Nat} {half : Int} (hm : 0 < m) (hhalf : (m : Int) = 2 * half) :
    -half ≤ v.bmod m ∧ v.bmod m < half := by
  have hlow := Int.le_bmod (x := v) hm
  have hhigh := Int.bmod_lt (x := v) hm
  omega

theorem Value.reduce_inRange {value : Value} {n : Int} (h : value.integer? = some n) :
    value.reduce.InRange := by
  cases value
  case u8 v => exact emod_range v (by norm_num)
  case u16 v => exact emod_range v (by norm_num)
  case u32 v => exact emod_range v (by norm_num)
  case u64 v => exact emod_range v (by norm_num)
  case i8 v => exact bmod_range v (by norm_num) (by norm_num)
  case i16 v => exact bmod_range v (by norm_num) (by norm_num)
  case i32 v => exact bmod_range v (by norm_num) (by norm_num)
  case i64 v => exact bmod_range v (by norm_num) (by norm_num)
  all_goals cases h

theorem Value.reduce_of_inRange {value : Value} (h : value.InRange) : value.reduce = value := by
  cases value
  case u8 v => exact congrArg Value.u8 (Int.emod_eq_of_lt h.1 h.2)
  case u16 v => exact congrArg Value.u16 (Int.emod_eq_of_lt h.1 h.2)
  case u32 v => exact congrArg Value.u32 (Int.emod_eq_of_lt h.1 h.2)
  case u64 v => exact congrArg Value.u64 (Int.emod_eq_of_lt h.1 h.2)
  case i8 v => exact congrArg Value.i8 (Int.bmod_eq_of_le h.1 h.2)
  case i16 v => exact congrArg Value.i16 (Int.bmod_eq_of_le h.1 h.2)
  case i32 v => exact congrArg Value.i32 (Int.bmod_eq_of_le h.1 h.2)
  case i64 v => exact congrArg Value.i64 (Int.bmod_eq_of_le h.1 h.2)
  all_goals rfl

/-- Exactly the integers in the range of the type are their own reductions. -/
theorem Value.reduce_eq_iff {value : Value} {n : Int} (h : value.integer? = some n) :
    value.reduce = value ↔ value.InRange := by
  constructor
  · intro heq
    rw [← heq]
    exact reduce_inRange h
  · exact reduce_of_inRange

end Ruby

namespace Agreement

open C
open Ruby (WriteCommand)

/-- There is a frame, and in it the C functions find the type of the value and the integer of the
other. -/
def Recovers (raises : Ruby.Value → Bool) (oid : Nat) (value result : Ruby.Value) : Prop :=
  ∃ frame, (WriteCommand.mk oid value).encodeUnless raises = .ok frame ∧
    ∃ h : frame.length < 2^32, ∀ scratch, ∃ data s,
      Server.parseBody scratch (Stream.initRo frame h) =
        (some (.write (UInt32.ofNat oid) data), s) ∧
      data.type = value.type ∧ data.integer? = result.integer?

theorem integer?_toRuby (d : Datum Bytes) : d.toRuby.integer? = d.integer? := by
  cases d <;> rfl

/-- An integer is all head. -/
theorem payload_integer {d : Datum Bytes} {n : Int} (h : d.integer? = some n) :
    payload d = [] ∧ (head d).length ≤ 9 := by
  cases d <;> simp [Datum.integer?, payload, Datum.string?, head, scalar] at h ⊢

theorem parse_integer (oid : Nat) {value : Ruby.Value} {n : Int} (hn : value.integer? = some n) :
    ∃ h : (WriteCommand.mk oid value).encode.length < 2^32, ∀ scratch, ∃ data s,
      Server.parseBody scratch (Stream.initRo _ h) = (some (.write (UInt32.ofNat oid) data), s) ∧
      data.type = value.type ∧ data.integer? = value.reduce.integer? := by
  obtain ⟨m, hm⟩ := Ruby.Value.integer?_reduce hn
  obtain ⟨d, hd⟩ := exists_datum (Ruby.Value.reduce_inRange hn)
    (fun bs hbs => by rw [Ruby.Value.bytes?_of_integer? hm] at hbs; cases hbs)
  have hinteger : d.integer? = value.reduce.integer? := by rw [hd, integer?_toRuby]
  have htype : d.type = value.type := by rw [← Ruby.Value.type_reduce, hd, type_toRuby]
  obtain ⟨hpayload, hhead⟩ := payload_integer (hinteger.trans hm)
  have hencode : (WriteCommand.mk oid value).encode = 0 :: Varint.encode oid ++ head d := by
    have hwrite := writeCommand_encode oid d
    rw [hpayload, List.append_nil, ← hd] at hwrite
    rw [← hwrite, WriteCommand.encode, WriteCommand.encode, Ruby.Base.putValue_reduce]
  have hlength : (WriteCommand.mk oid value).encode.length < 2^32 := by
    have hoidlen := Ruby.OutputCodec.length_encode_le oid
    rw [hencode, List.length_append, List.length_cons]
    omega
  refine ⟨hlength, ?_⟩
  intro scratch
  have hbody := (body_write_of_data oid (data_decodes d)).whole
  rw [← hencode, ← Stream.rest_initRo hlength] at hbody
  obtain ⟨hparse, -⟩ := Server.parseBody_write scratch hbody
  refine ⟨_, _, hparse, ?_, ?_⟩
  · rw [placed, Datum.type_map, Datum.type_map, htype]
  · rw [placed, Datum.integer?_map, Datum.integer?_map, hinteger]

theorem integer_recovered (raises : Ruby.Value → Bool) (oid : Nat) (value : Ruby.Value) (n : Int)
    (hn : value.integer? = some n) :
    ((WriteCommand.mk oid value).encodeUnless raises = .error .range ∨
      Recovers raises oid value value.reduce) ∧ (value.reduce = value ↔ value.InRange) := by
  refine ⟨?_, Ruby.Value.reduce_eq_iff hn⟩
  by_cases hraises : raises value = true
  · exact Or.inl (if_pos hraises)
  · obtain ⟨h, hparse⟩ := parse_integer oid hn
    exact Or.inr ⟨_, if_neg hraises, h, hparse⟩

theorem integer_recovered_negative :
    ((WriteCommand.mk 300 (.i16 (-40000))).encodeUnless (fun _ => false) = .error .range ∨
      Recovers (fun _ => false) 300 (.i16 (-40000)) (.i16 25536)) ∧
    ((.i16 25536 : Ruby.Value) = .i16 (-40000) ↔ (.i16 (-40000) : Ruby.Value).InRange) :=
  integer_recovered (fun _ => false) 300 (.i16 (-40000)) (-40000) rfl

/-- 256 is written as 0 by a pack that refuses nothing. -/
theorem integer_recovered_wrapped :
    (WriteCommand.mk 5 (.u8 256)).encodeUnless (fun _ => false) = .ok [0x00, 0x05, 0x01, 0x00] ∧
    ¬ ((WriteCommand.mk 5 (.u8 256)).encodeUnless (fun _ => false) = .error .range ∨
      Recovers (fun _ => false) 5 (.u8 256) (.u8 256)) := by
  refine ⟨by decide, ?_⟩
  intro h
  cases h with
  | inl hraises => cases hraises
  | inr hrecovers =>
    obtain ⟨frame, hencode, hlen, hparse⟩ := hrecovers
    cases hencode
    obtain ⟨data, s, hrun, -, hinteger⟩ := hparse 0
    have hn : (.u8 256 : Ruby.Value).integer? = some 256 := rfl
    obtain ⟨hlen', hparse'⟩ := parse_integer 5 hn
    obtain ⟨data', s', hrun', -, hinteger'⟩ := hparse' 0
    cases hrun.symm.trans hrun'
    exact absurd (hinteger.symm.trans hinteger') (by decide)

end Agreement

end Aloof
