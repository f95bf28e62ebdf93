import Aloof.C.Data
import Aloof.C.Server

namespace Aloof.C

/-- union aloof_values: send_alert reads the one member that its caller has set. -/
structure Values where
  u8 : UInt8 := 0
  u16 : UInt16 := 0
  u32 : UInt32 := 0
  u64 : UInt64 := 0
  i8 : Int8 := 0
  i16 : Int16 := 0
  i32 : Int32 := 0
  i64 : Int64 := 0
  bl : Bool := false
  fl : UInt32 := 0
  db : UInt64 := 0
  string : Bytes := ⟨[], by decide⟩

namespace Server

/-- The conversion of a double argument to int8_t, which C leaves open out of range. -/
abbrev Narrowing := UInt64 → Int8

variable (narrow : Narrowing)

def sendAlert (id : UInt32) (type : DataType) (value : Values) : Putter :=
  (Oer.putU8 (messageTypeCode .alert)).andThen <| (Oer.putUint id).andThen <|
    match type with
    | .nil => Data.putNil
    | .u8 => Data.putU8 value.u8
    | .u16 => Data.putU16 value.u16
    | .u32 => Data.putU32 value.u32
    | .u64 => Data.putU64 value.u64
    | .i8 => Data.putI8 value.i8
    | .i16 => Data.putI16 value.i16
    | .i32 => Data.putI32 value.i32
    | .i64 => Data.putI64 value.i64
    | .bool => Data.putBool value.bl
    | .float => Data.putFloat value.fl
    | .double => Data.putI8 (narrow value.db)
    | .string => Data.putString value.string
    | .blob => Data.putString value.string

def alertNil (id : UInt32) : Putter := sendAlert narrow id .nil {}

def alertU8 (id : UInt32) (value : UInt8) : Putter := sendAlert narrow id .u8 { u8 := value }

def alertU16 (id : UInt32) (value : UInt16) : Putter := sendAlert narrow id .u16 { u16 := value }

def alertU32 (id : UInt32) (value : UInt32) : Putter := sendAlert narrow id .u32 { u32 := value }

def alertU64 (id : UInt32) (value : UInt64) : Putter := sendAlert narrow id .u64 { u64 := value }

def alertI8 (id : UInt32) (value : Int8) : Putter := sendAlert narrow id .i8 { i8 := value }

def alertI16 (id : UInt32) (value : Int16) : Putter := sendAlert narrow id .i16 { i16 := value }

def alertI32 (id : UInt32) (value : Int32) : Putter := sendAlert narrow id .i32 { i32 := value }

def alertI64 (id : UInt32) (value : Int64) : Putter := sendAlert narrow id .i64 { i64 := value }

def alertBool (id : UInt32) (value : Bool) : Putter := sendAlert narrow id .bool { bl := value }

def alertFloat (id : UInt32) (value : UInt32) : Putter :=
  sendAlert narrow id .float { fl := value }

def alertDouble (id : UInt32) (value : UInt64) : Putter :=
  sendAlert narrow id .double { db := value }

def alertString (id : UInt32) (value : Bytes) : Putter :=
  sendAlert narrow id .string { string := value }

def alertBlob (id : UInt32) (value : Bytes) : Putter :=
  sendAlert narrow id .blob { string := value }

/-- aloof_server_alert_<type> for the type of the value. -/
def alert (id : UInt32) : Datum Bytes → Putter
  | .nil => alertNil narrow id
  | .u8 v => alertU8 narrow id v
  | .u16 v => alertU16 narrow id v
  | .u32 v => alertU32 narrow id v
  | .u64 v => alertU64 narrow id v
  | .i8 v => alertI8 narrow id v
  | .i16 v => alertI16 narrow id v
  | .i32 v => alertI32 narrow id v
  | .i64 v => alertI64 narrow id v
  | .bool v => alertBool narrow id v
  | .float v => alertFloat narrow id v
  | .double v => alertDouble narrow id v
  | .string v => alertString narrow id v
  | .blob v => alertBlob narrow id v

end Server

end Aloof.C
