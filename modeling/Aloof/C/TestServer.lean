import Aloof.C.DataProof
import Aloof.C.Server

namespace Aloof.C

/-- enum test_object_id. -/
inductive TestObjectId where
  | nil | u8 | u16 | u32 | u64 | i8 | i16 | i32 | i64 | bool | float | double | string | blob
  | unknown | noAccess | auth | arg | temp | app
  deriving DecidableEq

def testObjectIdCode : TestObjectId → UInt32
  | .nil => 0
  | .u8 => 1 | .u16 => 2 | .u32 => 3 | .u64 => 4
  | .i8 => 5 | .i16 => 6 | .i32 => 7 | .i64 => 8
  | .bool => 9
  | .float => 10 | .double => 11
  | .string => 12 | .blob => 13
  | .unknown => 14 | .noAccess => 15 | .auth => 16 | .arg => 17 | .temp => 18 | .app => 19

/-- struct object_def. -/
structure ObjectDef where
  oid : TestObjectId
  type : DataType

namespace TestServer

/-- The struct of string and of blob: 512 bytes, of which the first size are in use. -/
structure Buffer where
  value : List UInt8
  size : UInt32
  length_eq : value.length = 512
  size_le : size ≤ 512

/-- The value and the size as they are passed to aloof_data_put_string. -/
def Buffer.bytes (self : Buffer) : Bytes where
  data := self.value.take self.size.toNat
  size_lt := by
    rw [List.length_take, self.length_eq]
    omega

/-- struct state_holder; floats are their IEEE bit patterns. -/
structure StateHolder where
  u8 : UInt8
  u16 : UInt16
  u32 : UInt32
  u64 : UInt64
  i8 : Int8
  i16 : Int16
  i32 : Int32
  i64 : Int64
  bl : Bool
  fl : UInt32
  db : UInt64
  string : Buffer
  blob : Buffer

def Buffer.zero : Buffer := ⟨List.replicate 512 0, 0, List.length_replicate, UInt32.zero_le⟩

/-- static struct state_holder state. -/
def state : StateHolder :=
  ⟨0, 0, 0, 0, 0, 0, 0, 0, false, 0, 0, .zero, .zero⟩

def objects : List ObjectDef :=
  [⟨.nil, .nil⟩,
    ⟨.u8, .u8⟩, ⟨.u16, .u16⟩, ⟨.u32, .u32⟩, ⟨.u64, .u64⟩,
    ⟨.i8, .i8⟩, ⟨.i16, .i16⟩, ⟨.i32, .i32⟩, ⟨.i64, .i64⟩,
    ⟨.bool, .bool⟩,
    ⟨.float, .float⟩, ⟨.double, .double⟩,
    ⟨.string, .string⟩, ⟨.blob, .blob⟩,
    ⟨.unknown, .nil⟩, ⟨.noAccess, .nil⟩, ⟨.auth, .nil⟩, ⟨.arg, .nil⟩, ⟨.temp, .nil⟩,
    ⟨.app, .nil⟩]

def lookupOid (oid : UInt32) : Option ObjectDef :=
  objects.find? fun obj => testObjectIdCode obj.oid == oid

/-- The switch is on oid, which is the code of obj->oid. -/
def appReader : ReadFn StateHolder := fun state oid out =>
  let put (p : Putter) : ReadResult StateHolder := ⟨true, none, state, p.void out⟩
  let fail (error : AccessError) : ReadResult StateHolder := ⟨false, some error, state, out⟩
  match lookupOid oid with
  | none => fail .unknown
  | some obj =>
    match obj.oid with
    | .nil => put Data.putNil
    | .u8 => put (Data.putU8 state.u8)
    | .u16 => put (Data.putU16 state.u16)
    | .u32 => put (Data.putU32 state.u32)
    | .u64 => put (Data.putU64 state.u64)
    | .i8 => put (Data.putI8 state.i8)
    | .i16 => put (Data.putI16 state.i16)
    | .i32 => put (Data.putI32 state.i32)
    | .i64 => put (Data.putI64 state.i64)
    | .bool => put (Data.putBool state.bl)
    | .float => put (Data.putFloat state.fl)
    | .double => put (Data.putDouble state.db)
    | .string => put (Data.putString state.string.bytes)
    -- aloof_data_put_string here too
    | .blob => put (Data.putString state.blob.bytes)
    | .noAccess => fail .access
    | .auth => fail .authentication
    | .arg => fail .argument
    | .temp => fail .temporary
    | .app => fail .application
    | .unknown => fail .unknown

/-- What the cases TEST_STRING and TEST_BLOB leave behind. -/
structure Stored where
  verdict : Bool
  error : Option AccessError
  buffer : Buffer
  data : DataRx
  inp : Stream

theorem length_memcpy_zero {value ptr : List UInt8} (h : value.length = 512)
    (hptr : ptr.length ≤ 512) : (Stream.memcpy value 0 ptr).length = 512 := by
  rw [Stream.length_memcpy _ _ _ (by omega), h]

/-- Both sides of the inner comparison call a function; aloof_data_get_string does not change the
size, so their order is of no account. -/
def Buffer.store (self : Buffer) (data : DataRx) (inp : Stream) : Stored :=
  if h : Data.getStringSize data ≤ 512 then
    let chunk := Data.getString data inp 512
    let value := Stream.memcpy self.value 0 chunk.value
    have hvalue : value.length = 512 :=
      length_memcpy_zero self.length_eq (Data.length_getString_le data inp 512)
    if chunk.retval = Data.getStringSize chunk.self then
      ⟨true, none,
        ⟨value, Data.getStringSize chunk.self, hvalue,
          (Data.getStringSize_getString data inp 512).symm ▸ h⟩,
        chunk.self, chunk.s⟩
    else ⟨false, some .application, ⟨value, self.size, hvalue, self.size_le⟩, chunk.self, chunk.s⟩
  else ⟨false, some .application, self, data, inp⟩

def appWriter : WriteFn StateHolder := fun state oid data inp =>
  let set (state : StateHolder) : WriteResult StateHolder := ⟨true, none, state, data, inp⟩
  let fail (error : AccessError) : WriteResult StateHolder := ⟨false, some error, state, data, inp⟩
  match lookupOid oid with
  | none => fail .unknown
  | some obj =>
    if obj.type ≠ data.type then fail .argument
    else
      match obj.oid, data with
      | .nil, _ => set state
      | .u8, .u8 v => set { state with u8 := v }
      | .u16, .u16 v => set { state with u16 := v }
      | .u32, .u32 v => set { state with u32 := v }
      | .u64, .u64 v => set { state with u64 := v }
      | .i8, .i8 v => set { state with i8 := v }
      | .i16, .i16 v => set { state with i16 := v }
      | .i32, .i32 v => set { state with i32 := v }
      | .i64, .i64 v => set { state with i64 := v }
      | .bool, .bool v => set { state with bl := v }
      | .float, .float v => set { state with fl := v }
      | .double, .double v => set { state with db := v }
      | .string, data =>
        let r := state.string.store data inp
        ⟨r.verdict, r.error, { state with string := r.buffer }, r.data, r.inp⟩
      | .blob, data =>
        let r := state.blob.store data inp
        ⟨r.verdict, r.error, { state with blob := r.buffer }, r.data, r.inp⟩
      | .noAccess, _ => fail .access
      | .auth, _ => fail .authentication
      | .arg, _ => fail .argument
      | .temp, _ => fail .temporary
      | .app, _ => fail .application
      -- TEST_UNKNOWN; a value of another type does not get here
      | _, _ => fail .unknown

def server : Server StateHolder := .init (some appReader) (some appWriter)

/-- A message that main reads into rx_buffer. -/
structure Frame where
  bytes : List UInt8
  length_le : bytes.length ≤ 1024

/-- What a pass of the loop finds: the garbage of aloof_server_process, and the bytes of earlier
messages in tx_buffer. -/
structure Leftover where
  loc : Locals
  txBuffer : List UInt8
  length_eq : txBuffer.length = 1024

theorem lt_of_le_kilo {n : Nat} (h : n ≤ 1024) : n < 2^32 := by omega

/-- From aloof_stream_init_ro on; the message to write is `none` without output. -/
def serve (left : Leftover) (state : StateHolder) (frame : Frame) :
    Option (List UInt8) × StateHolder :=
  let rx := Stream.initRo frame.bytes (lt_of_le_kilo frame.length_le)
  let tx := Stream.init left.txBuffer (lt_of_le_kilo left.length_eq.le)
  let r := server.process left.loc state rx tx
  let header := r.out.tell.toUInt16
  (if r.out.tell > 0 then some (r.out.buf.take header.toNat) else none, r.app)

end TestServer

end Aloof.C
