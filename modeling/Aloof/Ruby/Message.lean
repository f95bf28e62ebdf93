import Aloof.Ruby.Codec

namespace Aloof.Ruby

open Framework

inductive Reason where
  | unkownOid | accessDenied | authenticationRequired | argumentError | temporaryFailure
  | applicationError
  deriving DecidableEq

/-- The pair result, reason; there is a reason when the result is :failure. -/
inductive AccessResult where
  | success
  | failure (reason : Reason)
  deriving DecidableEq

structure ReadCommand where
  oid : Nat
  deriving DecidableEq

structure WriteCommand (φ : Type := UInt32) where
  oid : Nat
  value : Value φ
  deriving DecidableEq

inductive CommandType (φ : Type := UInt32) where
  | write (type : WriteCommand φ)
  | read (type : ReadCommand)
  deriving DecidableEq

structure Command (φ : Type := UInt32) where
  confirmed : Bool
  invokeId : Nat
  type : CommandType φ
  deriving DecidableEq

/-- type and value are nil unless the result is :success. -/
structure ReadResponse (φ : Type := UInt32) where
  result : AccessResult
  value : Option (Value φ)
  deriving DecidableEq

structure WriteResponse where
  result : AccessResult
  deriving DecidableEq

inductive ResponseType (φ : Type := UInt32) where
  | write (type : WriteResponse)
  | read (type : ReadResponse φ)
  deriving DecidableEq

structure Response (φ : Type := UInt32) where
  confirmed : Bool
  invokeId : Nat
  type : ResponseType φ
  deriving DecidableEq

structure Alert (φ : Type := UInt32) where
  aid : Nat
  value : Value φ
  deriving DecidableEq

/-- The instances that decode can return. -/
inductive Message where
  | response (msg : Response)
  | alert (msg : Alert)
  deriving DecidableEq

namespace Base

/-- The entries of MESSAGES. -/
inductive MessageClass where
  | hello | helloHello | error | command | response | alert
  deriving DecidableEq

def messages : List MessageClass := [.hello, .helloHello, .error, .command, .response, .alert]

def types : List DataType :=
  [.nil, .u8, .u16, .u32, .u64, .i8, .i16, .i32, .i64, .bool, .float, .double, .string, .blob]

/-- buf.send "get_type". -/
def getTyped : DataType → Decoder Error UInt8 Value
  | .nil => return .nil
  | .u8 => return .u8 (← InputCodec.getU8)
  | .u16 => return .u16 (← InputCodec.getU16)
  | .u32 => return .u32 (← InputCodec.getU32)
  | .u64 => return .u64 (← InputCodec.getU64)
  | .i8 => return .i8 (← InputCodec.getI8)
  | .i16 => return .i16 (← InputCodec.getI16)
  | .i32 => return .i32 (← InputCodec.getI32)
  | .i64 => return .i64 (← InputCodec.getI64)
  | .bool => return .bool (← InputCodec.getBool)
  | .float => return .float (← InputCodec.getSingle)
  | .double => return .double (← InputCodec.getDouble)
  | .string => return .string (← InputCodec.getString)
  | .blob => return .blob (← InputCodec.getString)

def getValue : Decoder Error UInt8 Value := do
  let typeTag ← InputCodec.getByte
  match types[typeTag.toNat]? with
  | none => Decoder.fail .encoding
  | some type => getTyped type

/-- buf.send "put_type". -/
def putTyped : Value → List UInt8
  | .nil => OutputCodec.putNil
  | .u8 v => OutputCodec.putU8 v
  | .u16 v => OutputCodec.putU16 v
  | .u32 v => OutputCodec.putU32 v
  | .u64 v => OutputCodec.putU64 v
  | .i8 v => OutputCodec.putI8 v
  | .i16 v => OutputCodec.putI16 v
  | .i32 v => OutputCodec.putI32 v
  | .i64 v => OutputCodec.putI64 v
  | .bool v => OutputCodec.putBool v
  | .float v => OutputCodec.putSingle v
  | .double v => OutputCodec.putDouble v
  | .string v | .blob v => OutputCodec.putString v

def putValue (value : Value) : List UInt8 :=
  OutputCodec.putU8 (types.idxOf value.type) ++ putTyped value

/-- ACCESS_RESULT_REASON. -/
def accessResultReason : List Reason :=
  [.unkownOid, .accessDenied, .authenticationRequired, .argumentError, .temporaryFailure,
    .applicationError]

def getAccessResult : Decoder Error UInt8 AccessResult := do
  match ← InputCodec.getUint with
  | 0 => return .success
  | 1 =>
    let reasonTag ← InputCodec.getUint
    match accessResultReason[reasonTag]? with
    | none => Decoder.fail .encoding
    | some reason => return .failure reason
  | _ => Decoder.fail .encoding

end Base

namespace ReadCommand

def tag : Nat := 1

def encode (self : ReadCommand) : List UInt8 :=
  OutputCodec.putUint tag ++ OutputCodec.putUint self.oid

end ReadCommand

namespace WriteCommand

def tag : Nat := 0

def encode (self : WriteCommand) : List UInt8 :=
  OutputCodec.putUint tag ++ OutputCodec.putUint self.oid ++ Base.putValue self.value

end WriteCommand

def CommandType.encode : CommandType → List UInt8
  | write type => type.encode
  | read type => type.encode

namespace Command

def tag : Nat := 3

/-- The number of classes in COMMANDS. -/
def commands : Nat := 2

/-- The condition of the last statement names a variable that does not exist. -/
def decode : Decoder Error UInt8 (Option Message) := do
  let _invokeField ← InputCodec.getByte
  let cls ← InputCodec.getUint
  if cls < commands then Decoder.fail .name else Decoder.fail .encoding

def invokeField (self : Command) : Nat :=
  (self.invokeId &&& 0x7f) ||| (if self.confirmed then 0x80 else 0x00)

def encode (self : Command) : List UInt8 :=
  OutputCodec.putUint tag ++ OutputCodec.putU8 self.invokeField ++ self.type.encode

end Command

def ReadResponse.decode : Decoder Error UInt8 ReadResponse := do
  match ← Base.getAccessResult with
  | .success => return ⟨.success, some (← Base.getValue)⟩
  | .failure reason => return ⟨.failure reason, none⟩

def WriteResponse.decode : Decoder Error UInt8 WriteResponse := do
  return ⟨← Base.getAccessResult⟩

namespace Response

def tag : Nat := 4

/-- cls.decode(buf) for the class at an index of RESPONSES. -/
def decodeType : Nat → Decoder Error UInt8 ResponseType
  | 0 => return .write (← WriteResponse.decode)
  | 1 => return .read (← ReadResponse.decode)
  | _ => Decoder.fail .encoding

def decode : Decoder Error UInt8 (Option Message) := do
  let invokeField ← InputCodec.getByte
  let invokeId := invokeField &&& 0x7f
  let confirmed := (invokeField &&& 0x80) != 0
  let type ← decodeType (← InputCodec.getUint)
  return some (.response ⟨confirmed, invokeId.toNat, type⟩)

end Response

def Alert.decode : Decoder Error UInt8 (Option Message) := do
  let aid ← InputCodec.getUint
  let value ← Base.getValue
  return some (.alert ⟨aid, value⟩)

/-- Reading an uint takes at least one byte. -/
theorem InputCodec.getUint_shorter {s s' : List UInt8} {n : Nat} (h : getUint s = .ok (n, s')) :
    s'.length < s.length := by
  obtain ⟨first, t, hfirst, hrun⟩ := Decoder.bind_eq_ok h
  cases s with
  | nil => cases hfirst
  | cons b tl =>
    cases hfirst
    split_ifs at hrun
    · simp only at hrun
      split_ifs at hrun
      · cases hrun
        simp only [List.length_drop, List.length_cons]
        omega
    · cases hrun
    · cases hrun
      simp

/-- Hello.decode has an empty body, HelloHello has Hello's, and Error has this method. -/
def Base.decode (s : List UInt8) : Except Error (Option Message × List UInt8) :=
  match h : InputCodec.getUint s with
  | .error e => .error e
  | .ok (tag, s') =>
    have := InputCodec.getUint_shorter h
    match messages[tag]? with
    | none => .ok (none, s')
    | some .hello => .ok (none, s')
    | some .helloHello => .ok (none, s')
    | some .error => Base.decode s'
    | some .command => Command.decode s'
    | some .response => Response.decode s'
    | some .alert => Alert.decode s'
termination_by s.length

/-- MessageDecoder#decode: an exception ends in nil. -/
def MessageDecoder.decode (input : List UInt8) : Option Message :=
  match Base.decode input with
  | .ok (msg, _) => msg
  | .error _ => none

end Aloof.Ruby
