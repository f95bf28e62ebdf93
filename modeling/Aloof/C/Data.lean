import Aloof.C.Oer

namespace Aloof.C

/-- enum aloof_data_type. -/
def dataTypeCode : DataType → UInt8
  | .nil => 0
  | .u8 => 1 | .u16 => 2 | .u32 => 3 | .u64 => 4
  | .i8 => 5 | .i16 => 6 | .i32 => 7 | .i64 => 8
  | .bool => 9
  | .float => 10 | .double => 11
  | .string => 12 | .blob => 13

/-- The string member of struct aloof_data_rx; its stream is the one the value came from. -/
structure StringRx where
  size : UInt32
  start : UInt32
  deriving DecidableEq

/-- struct aloof_data_rx: the type tag and the union member that it selects. -/
abbrev DataRx := Datum StringRx

namespace Data

def putNil : Putter := Oer.putU8 (dataTypeCode .nil)

def putU8 (value : UInt8) : Putter := (Oer.putU8 (dataTypeCode .u8)).andThen (Oer.putU8 value)

def putU16 (value : UInt16) : Putter := (Oer.putU8 (dataTypeCode .u16)).andThen (Oer.putU16 value)

def putU32 (value : UInt32) : Putter := (Oer.putU8 (dataTypeCode .u32)).andThen (Oer.putU32 value)

def putU64 (value : UInt64) : Putter := (Oer.putU8 (dataTypeCode .u64)).andThen (Oer.putU64 value)

def putI8 (value : Int8) : Putter := (Oer.putU8 (dataTypeCode .i8)).andThen (Oer.putI8 value)

def putI16 (value : Int16) : Putter := (Oer.putU8 (dataTypeCode .i16)).andThen (Oer.putI16 value)

def putI32 (value : Int32) : Putter := (Oer.putU8 (dataTypeCode .i32)).andThen (Oer.putI32 value)

def putI64 (value : Int64) : Putter := (Oer.putU8 (dataTypeCode .i64)).andThen (Oer.putI64 value)

def putBool (value : Bool) : Putter :=
  (Oer.putU8 (dataTypeCode .bool)).andThen (Oer.putBool value)

def putFloat (value : UInt32) : Putter :=
  (Oer.putU8 (dataTypeCode .float)).andThen (Oer.putFloat value)

def putDouble (value : UInt64) : Putter :=
  (Oer.putU8 (dataTypeCode .double)).andThen (Oer.putDouble value)

def putString (value : Bytes) : Putter :=
  (Oer.putU8 (dataTypeCode .string)).andThen (Oer.putString value)

def putBlob (value : Bytes) : Putter :=
  (Oer.putU8 (dataTypeCode .blob)).andThen (Oer.putString value)

/-- aloof_data_put_<type> for the type of the value. -/
def put : Datum Bytes → Putter
  | .nil => putNil
  | .u8 v => putU8 v | .u16 v => putU16 v | .u32 v => putU32 v | .u64 v => putU64 v
  | .i8 v => putI8 v | .i16 v => putI16 v | .i32 v => putI32 v | .i64 v => putI64 v
  | .bool v => putBool v
  | .float v => putFloat v | .double v => putDouble v
  | .string v => putString v | .blob v => putBlob v

def types : List DataType :=
  [.nil, .u8, .u16, .u32, .u64, .i8, .i16, .i32, .i64, .bool, .float, .double, .string, .blob]

/-- The window announced for a string: its size is read, its bytes are not looked for. -/
def getWindow (scratch : UInt8) : Getter StringRx := do
  let size ← Oer.getUint scratch
  let start ← (fun s => (some s.tell, s) : Getter UInt32)
  return ⟨size, start⟩

def get (scratch : UInt8) : Getter DataRx := do
  let tag ← Oer.getU8
  match types[tag.toNat]? with
  | none => Getter.fail
  | some .nil => return .nil
  | some .u8 => return .u8 (← Oer.getU8)
  | some .u16 => return .u16 (← Oer.getU16)
  | some .u32 => return .u32 (← Oer.getU32)
  | some .u64 => return .u64 (← Oer.getU64)
  | some .i8 => return .i8 (← Oer.getI8)
  | some .i16 => return .i16 (← Oer.getI16)
  | some .i32 => return .i32 (← Oer.getI32)
  | some .i64 => return .i64 (← Oer.getI64)
  | some .bool => return .bool (← Oer.getBool)
  | some .float => return .float (← Oer.getFloat)
  | some .double => return .double (← Oer.getDouble)
  | some .string => return .string (← getWindow scratch)
  | some .blob => return .blob (← getWindow scratch)

/-- What aloof_data_get_string returns and leaves behind. -/
structure Chunk where
  retval : UInt32
  value : List UInt8
  self : DataRx
  s : Stream

def getString (self : DataRx) (s : Stream) (max : UInt32) : Chunk :=
  match self.string? with
  | none => ⟨0, [], self, s⟩
  | some w =>
    if w.start < s.tell + w.size then
      let retval := (s.tell + w.size) - w.start
      let retval := if retval > max then max else retval
      match s.read retval with
      | (some value, s) =>
        ⟨retval, value, self.map fun w => { w with start := w.start + retval }, s⟩
      | (none, s) => ⟨0, [], self, s⟩
    else ⟨0, [], self, s⟩

def getStringSize (self : DataRx) : UInt32 :=
  match self.string? with
  | some w => w.size
  | none => 0

end Data

end Aloof.C
