import Aloof.C.ServerRequest
import Aloof.C.TestServer
import Aloof.Framework.Register

namespace Aloof.C.TestServer

open Framework

/-- A value that the cell of a type can hold. -/
structure Holds (t : DataType) (v : Datum Bytes) : Prop where
  type : v.type = t
  short : ∀ b, v.string? = some b → b.data.length ≤ 512

abbrev Slot (t : DataType) := {v : Datum Bytes // Holds t v}

/-- The test server is a store with one cell for each type. -/
abbrev Cells := (t : DataType) → Slot t

/-- Objects 14 to 19, and those that there are not. -/
def refusals : List AccessError :=
  [.unknown, .access, .authentication, .argument, .temporary, .application]

/-- What an id names: the cell of a type, or an object that refuses. -/
def object (oid : UInt32) : Except AccessError DataType :=
  match Data.types[oid.toNat]? with
  | some t => .ok t
  | none => .error (refusals[oid.toNat - 14]?.getD .unknown)

/-- The bytes of a string are those that follow. -/
def fill (data : Datum UInt32) (payload : List UInt8) : Datum Bytes :=
  data.map fun size => ⟨payload.take size.toNat,
    Nat.lt_of_le_of_lt (List.length_take_le _ _) size.toNat_lt⟩

/-- A string that is there and fits. -/
def Fits (data : Datum UInt32) (payload : List UInt8) : Prop :=
  ∀ size, data.string? = some size → size.toNat ≤ 512 ∧ size.toNat ≤ payload.length

theorem fill_holds {data : Datum UInt32} {payload : List UInt8} (h : Fits data payload) :
    Holds data.type (fill data payload) where
  type := Datum.type_map _ _
  short b hb := by
    rw [fill, Datum.string?_map] at hb
    obtain ⟨size, hsize, rfl⟩ := Option.map_eq_some_iff.mp hb
    exact Nat.le_trans (List.length_take_le _ _) (h size hsize).1

instance (data : Datum UInt32) (payload : List UInt8) : Decidable (Fits data payload) :=
  match hdata : data.string? with
  | none => isTrue fun size h => by rw [hdata] at h; cases h
  | some size =>
    decidable_of_iff (size.toNat ≤ 512 ∧ size.toNat ≤ payload.length)
      ⟨fun h size' h' => by rw [hdata] at h'; cases h'; exact h, fun h => h size hdata⟩

/-- What comes of a write. An object that refuses is of the type nil. -/
def taken (oid : UInt32) (data : Datum UInt32) (payload : List UInt8) :
    Except AccessError (Sigma Slot) :=
  match object oid with
  | .ok t =>
    if t ≠ data.type then .error .argument
    else if h : Fits data payload then .ok ⟨data.type, fill data payload, fill_holds h⟩
    else .error .application
  | .error e => if oid < 20 ∧ data.type ≠ .nil then .error .argument else .error e

/-- The blob is read as a string. -/
def shown : Datum Bytes → Datum Bytes
  | .blob b => .string b
  | v => v

def reply (cells : Cells) : Request → Option (List UInt8)
  | .hello => some Server.helloReply
  | .command inv (.read oid) _ =>
    if Server.isConfirmed inv then
      match object oid with
      | .ok t => some ([4, inv, 1, 0] ++ datumOctets (shown (cells t).1))
      | .error e => some (Server.readFailure inv (accessErrorCode e).toUInt8)
    else none
  | .command inv (.write oid data) payload =>
    if Server.isConfirmed inv then
      match taken oid data payload with
      | .ok _ => some [4, inv, 0, 0]
      | .error e => some [4, inv, 0, 1, (accessErrorCode e).toUInt8]
    else none

def effect : Request → Option (Sigma Slot)
  | .command _ (.write oid data) payload => (taken oid data payload).toOption
  | _ => none

/-- The store, as messages see it. -/
def store : Registers DataType Slot (List UInt8) (Option (List UInt8)) where
  effect message := (Grammar.request message).bind effect
  answer cells message := (Grammar.request message).bind (reply cells)

theorem Buffer.length_bytes (b : Buffer) : b.bytes.data.length ≤ 512 := by
  have h := b.length_eq
  rw [Buffer.bytes, List.length_take]
  omega

/-- The cells of a state. -/
def cells (s : StateHolder) : Cells
  | .nil => ⟨.nil, rfl, by rintro _ ⟨⟩⟩
  | .u8 => ⟨.u8 s.u8, rfl, by rintro _ ⟨⟩⟩
  | .u16 => ⟨.u16 s.u16, rfl, by rintro _ ⟨⟩⟩
  | .u32 => ⟨.u32 s.u32, rfl, by rintro _ ⟨⟩⟩
  | .u64 => ⟨.u64 s.u64, rfl, by rintro _ ⟨⟩⟩
  | .i8 => ⟨.i8 s.i8, rfl, by rintro _ ⟨⟩⟩
  | .i16 => ⟨.i16 s.i16, rfl, by rintro _ ⟨⟩⟩
  | .i32 => ⟨.i32 s.i32, rfl, by rintro _ ⟨⟩⟩
  | .i64 => ⟨.i64 s.i64, rfl, by rintro _ ⟨⟩⟩
  | .bool => ⟨.bool s.bl, rfl, by rintro _ ⟨⟩⟩
  | .float => ⟨.float s.fl, rfl, by rintro _ ⟨⟩⟩
  | .double => ⟨.double s.db, rfl, by rintro _ ⟨⟩⟩
  | .string => ⟨.string s.string.bytes, rfl, by rintro _ ⟨⟩; exact s.string.length_bytes⟩
  | .blob => ⟨.blob s.blob.bytes, rfl, by rintro _ ⟨⟩; exact s.blob.length_bytes⟩

section Objects

/-- The type that an object has in the table. -/
def TestObjectId.type : TestObjectId → DataType
  | .u8 => .u8 | .u16 => .u16 | .u32 => .u32 | .u64 => .u64
  | .i8 => .i8 | .i16 => .i16 | .i32 => .i32 | .i64 => .i64
  | .bool => .bool
  | .float => .float | .double => .double
  | .string => .string | .blob => .blob
  | _ => .nil

theorem lookupOid_code (id : TestObjectId) :
    lookupOid (testObjectIdCode id) = some ⟨id, TestObjectId.type id⟩ := by
  cases id <;> rfl

/-- The ids of objects, and the others. -/
theorem oid_cases (oid : UInt32) : (∃ id, oid = testObjectIdCode id) ∨
    20 ≤ oid.toNat ∧ lookupOid oid = none ∧ object oid = .error .unknown := by
  rcases Nat.lt_or_ge oid.toNat 20 with hlt | hge
  · left
    have hall : ∀ n : Fin 20, ∃ id, UInt32.ofNat n.val = testObjectIdCode id := by
      intro n
      have hcode : ∀ n : Fin 20, ∃ obj ∈ objects, testObjectIdCode obj.oid = UInt32.ofNat n.val := by
        decide
      obtain ⟨obj, -, h⟩ := hcode n
      exact ⟨obj.oid, h.symm⟩
    have hid := hall ⟨oid.toNat, hlt⟩
    rwa [UInt32.ofNat_toNat] at hid
  · right
    refine ⟨hge, ?_, ?_⟩
    · rw [lookupOid, List.find?_eq_none]
      intro obj _ heq
      have hcode : (testObjectIdCode obj.oid).toNat < 20 := by cases obj.oid <;> decide
      rw [beq_iff_eq.mp heq] at hcode
      omega
    · have htypes : Data.types[oid.toNat]? = none := List.getElem?_eq_none (by
        change 14 ≤ oid.toNat
        omega)
      have hnone : refusals[oid.toNat - 14]? = none := List.getElem?_eq_none (by
        change 6 ≤ oid.toNat - 14
        omega)
      rw [object, htypes, hnone]
      rfl

end Objects

theorem appReader_eq (s : StateHolder) (oid : UInt32) (out : Stream) :
    appReader s oid out = match object oid with
      | .ok t => ⟨true, none, s, (Data.put (shown (cells s t).1)).void out⟩
      | .error e => ⟨false, some e, s, out⟩ := by
  rcases oid_cases oid with ⟨id, rfl⟩ | ⟨-, hnone, hobject⟩
  · rw [appReader, lookupOid_code]
    cases id <;> rfl
  · rw [appReader, hnone, hobject]

/-- A string is stored as a whole or not at all. -/
theorem Buffer.store_eq (b : Buffer) {d : DataRx} {inp : Stream} {size : UInt32}
    (hd : d.string? = some ⟨size, inp.pos⟩) (hr : inp.readable = true) :
    let r := b.store d inp
    if size.toNat ≤ 512 ∧ size.toNat ≤ inp.rest.length then
      r.verdict = true ∧ r.buffer.bytes.data = inp.rest.take size.toNat
    else r.verdict = false ∧ r.error = some .application ∧ r.buffer.bytes = b.bytes := by
  have hsize : Data.getStringSize d = size := by rw [Data.getStringSize, hd]
  have hkept : Data.getStringSize (Data.getString d inp 512).self = size := by
    rw [Data.getStringSize_getString, hsize]
  have hle : size ≤ 512 ↔ size.toNat ≤ 512 := UInt32.le_iff_toNat_le
  by_cases hmax : size ≤ 512
  · have hstore : Data.getStringSize d ≤ 512 := hsize ▸ hmax
    by_cases hthere : size.toNat ≤ inp.rest.length
    · obtain ⟨hretval, hvalue, -⟩ := Data.getString_whole hd rfl hthere hmax
      rw [if_pos ⟨hle.mp hmax, hthere⟩, Buffer.store, dif_pos hstore]
      dsimp only
      rw [if_pos (hretval.trans hkept.symm)]
      refine ⟨rfl, ?_⟩
      have htake := Stream.take_memcpy_end b.value (inp.rest.take size.toNat) 0 (Nat.zero_le _)
      rw [List.length_take, Nat.min_eq_left hthere, Nat.zero_add, List.take_zero,
        List.nil_append] at htake
      simp only [Buffer.bytes, hkept, hvalue, htake]
    · obtain ⟨hretval, hvalue, -⟩ := Data.getString_spec ⟨hd, fun _ => hr⟩ 512
      have hnone : Data.returned size inp 512 = 0 := by
        have hmin : min size.toNat (512 : UInt32).toNat = size.toNat :=
          Nat.min_eq_left (hle.mp hmax)
        rw [Data.returned, if_neg fun h => hthere (hmin ▸ h.2)]
      rw [hnone] at hretval hvalue
      have hne : (Data.getString d inp 512).retval ≠
          Data.getStringSize (Data.getString d inp 512).self := by
        rw [hkept]
        intro heq
        rw [heq] at hretval
        omega
      rw [if_neg fun h => hthere h.2, Buffer.store, dif_pos hstore]
      dsimp only
      rw [if_neg hne]
      refine ⟨rfl, rfl, ?_⟩
      simp [Buffer.bytes, hvalue, Stream.memcpy]
  · rw [if_neg fun h => hmax (hle.mpr h.1), Buffer.store, dif_neg (hsize ▸ hmax)]
    exact ⟨rfl, rfl, rfl⟩


/-- What the write handler makes of a request, and what the store makes of it. -/
structure Writes (s : StateHolder) (r : WriteResult StateHolder)
    (result : Except AccessError (Sigma Slot)) : Prop where
  ok : ∀ v, result = .ok v → r.verdict = true ∧ cells r.app = Function.update (cells s) v.1 v.2
  error : ∀ e, result = .error e → r.verdict = false ∧ r.error = some e ∧ cells r.app = cells s

theorem Writes.refused {s : StateHolder} {r : WriteResult StateHolder} {e : AccessError}
    (hverdict : r.verdict = false) (herror : r.error = some e) (happ : cells r.app = cells s) :
    Writes s r (.error e) where
  ok v h := by cases h
  error e' h := by
    cases h
    exact ⟨hverdict, herror, happ⟩

theorem Writes.accepted {s : StateHolder} {r : WriteResult StateHolder} {v : Sigma Slot}
    (hverdict : r.verdict = true) (happ : cells r.app = Function.update (cells s) v.1 v.2) :
    Writes s r (.ok v) where
  ok v' h := by
    cases h
    exact ⟨hverdict, happ⟩
  error e h := by cases h

theorem fits_scalar {data : Datum UInt32} (h : data.string? = none) (payload : List UInt8) :
    Fits data payload := by
  intro size hsize
  rw [h] at hsize
  cases hsize

/-- A value of the type of the cell. -/
theorem taken_fits {oid : UInt32} {data : Datum UInt32} {payload : List UInt8}
    (hobject : object oid = .ok data.type) (h : Fits data payload) :
    taken oid data payload = .ok ⟨data.type, fill data payload, fill_holds h⟩ := by
  rw [taken, hobject]
  dsimp only
  rw [if_neg (by simp), dif_pos h]

theorem taken_unfit {oid : UInt32} {data : Datum UInt32} {payload : List UInt8}
    (hobject : object oid = .ok data.type) (h : ¬ Fits data payload) :
    taken oid data payload = .error .application := by
  rw [taken, hobject]
  dsimp only
  rw [if_neg (by simp), dif_neg h]

theorem taken_mismatch {id : TestObjectId} {data : Datum UInt32}
    (h : TestObjectId.type id ≠ data.type) (payload : List UInt8) :
    taken (testObjectIdCode id) data payload = .error .argument := by
  unfold taken
  cases id with
  | unknown | noAccess | auth | arg | temp | app => exact if_pos ⟨by decide, Ne.symm h⟩
  | _ => exact if_pos h

theorem appWriter_mismatch (s : StateHolder) {id : TestObjectId} {data : DataRx}
    (h : TestObjectId.type id ≠ data.type) (inp : Stream) :
    appWriter s (testObjectIdCode id) data inp = ⟨false, some .argument, s, data, inp⟩ := by
  rw [appWriter, lookupOid_code]
  exact if_pos h

theorem appWriter_scalar (s : StateHolder) {data : Datum UInt32} (hscalar : data.string? = none)
    {id : TestObjectId} (htype : TestObjectId.type id = data.type) (inp : Stream) :
    Writes s (appWriter s (testObjectIdCode id) (placed data inp) inp)
      (taken (testObjectIdCode id) data inp.rest) := by
  have hfits := fits_scalar hscalar inp.rest
  rw [appWriter, lookupOid_code]
  cases id <;> cases data <;> cases htype
  case string.string | blob.blob => cases hscalar
  case unknown.nil | noAccess.nil | auth.nil | arg.nil | temp.nil | app.nil =>
    exact .refused rfl rfl rfl
  all_goals
    rw [taken_fits rfl hfits]
    exact .accepted rfl (by funext t; cases t <;> rfl)


theorem cells_string (s : StateHolder) {b : Buffer} {v : Bytes} (h : b.bytes = v)
    (hv : Holds .string (.string v)) : cells { s with string := b } =
      Function.update (cells s) .string ⟨.string v, hv⟩ := by
  subst h
  funext t
  cases t <;> rfl

theorem cells_blob (s : StateHolder) {b : Buffer} {v : Bytes} (h : b.bytes = v)
    (hv : Holds .blob (.blob v)) : cells { s with blob := b } =
      Function.update (cells s) .blob ⟨.blob v, hv⟩ := by
  subst h
  funext t
  cases t <;> rfl

theorem fits_string {data : Datum UInt32} {size : UInt32} (h : data.string? = some size)
    (payload : List UInt8) :
    Fits data payload ↔ size.toNat ≤ 512 ∧ size.toNat ≤ payload.length := by
  constructor
  · exact fun hfits => hfits size h
  · intro hfits size' h'
    cases h.symm.trans h'
    exact hfits

theorem appWriter_string (s : StateHolder) {size : UInt32} {inp : Stream}
    (hr : inp.readable = true) :
    Writes s (appWriter s (testObjectIdCode .string) (placed (.string size) inp) inp)
      (taken (testObjectIdCode .string) (.string size) inp.rest) := by
  have hstore := s.string.store_eq (d := placed (.string size) inp) rfl hr
  have hfits : Fits (.string size) inp.rest ↔ _ := fits_string rfl inp.rest
  rw [appWriter, lookupOid_code]
  by_cases h : Fits (.string size) inp.rest
  · rw [if_pos (hfits.mp h)] at hstore
    rw [taken_fits rfl h]
    exact .accepted hstore.1 (cells_string s (Bytes.ext_data hstore.2) _)
  · rw [if_neg (mt hfits.mpr h)] at hstore
    obtain ⟨hverdict, herror, hbytes⟩ := hstore
    rw [taken_unfit rfl h]
    refine .refused hverdict herror ?_
    have hcells := cells_string s hbytes (cells s .string).2
    exact hcells.trans (Function.update_eq_self .string (cells s))

theorem appWriter_blob (s : StateHolder) {size : UInt32} {inp : Stream}
    (hr : inp.readable = true) :
    Writes s (appWriter s (testObjectIdCode .blob) (placed (.blob size) inp) inp)
      (taken (testObjectIdCode .blob) (.blob size) inp.rest) := by
  have hstore := s.blob.store_eq (d := placed (.blob size) inp) rfl hr
  have hfits : Fits (.blob size) inp.rest ↔ _ := fits_string rfl inp.rest
  rw [appWriter, lookupOid_code]
  by_cases h : Fits (.blob size) inp.rest
  · rw [if_pos (hfits.mp h)] at hstore
    rw [taken_fits rfl h]
    exact .accepted hstore.1 (cells_blob s (Bytes.ext_data hstore.2) _)
  · rw [if_neg (mt hfits.mpr h)] at hstore
    obtain ⟨hverdict, herror, hbytes⟩ := hstore
    rw [taken_unfit rfl h]
    refine .refused hverdict herror ?_
    have hcells := cells_blob s hbytes (cells s .blob).2
    exact hcells.trans (Function.update_eq_self .blob (cells s))

theorem appWriter_spec (s : StateHolder) (oid : UInt32) (data : Datum UInt32) {inp : Stream}
    (hr : inp.readable = true) :
    Writes s (appWriter s oid (placed data inp) inp) (taken oid data inp.rest) := by
  rcases oid_cases oid with ⟨id, rfl⟩ | ⟨hge, hnone, hobject⟩
  · by_cases htype : TestObjectId.type id = data.type
    · cases hstring : data.string? with
      | none => exact appWriter_scalar s hstring htype inp
      | some size =>
        cases data with
        | string size =>
          obtain rfl : id = .string := by cases id <;> first | rfl | cases htype
          exact appWriter_string s hr
        | blob size =>
          obtain rfl : id = .blob := by cases id <;> first | rfl | cases htype
          exact appWriter_blob s hr
        | _ => cases hstring
    · rw [taken_mismatch htype, appWriter_mismatch s (by rwa [placed, Datum.type_map])]
      exact .refused rfl rfl rfl
  · have hlt : ¬ oid < 20 := by
      rw [UInt32.lt_iff_toNat_lt]
      exact Nat.not_lt.mpr hge
    rw [taken, hobject, appWriter, hnone]
    dsimp only
    rw [if_neg fun h => hlt h.1]
    exact .refused rfl rfl rfl

end Aloof.C.TestServer
