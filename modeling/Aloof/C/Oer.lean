import Aloof.C.Stream
import Aloof.Wire.Datum

namespace Aloof.C.Oer

def sizeofUint (value : UInt32) : UInt8 :=
  if value < 0x80 then 1
  else if value < 0x100 then 2
  else if value ≤ 0x10000 then 3
  else if value ≤ 0x1000000 then 4
  else 5

def sizeofInt (value : Int32) : UInt8 :=
  if value < 0 then
    if value ≥ -64 then 1
    else if value ≥ -128 then 2
    else if value ≥ -32768 then 3
    else if value ≥ -8388608 then 4
    else 5
  else
    if value ≤ 0x3f then 1
    else if value ≤ 0x7f then 2
    else if value ≤ 0x7fff then 3
    else if value ≤ 0x7fffff then 4
    else 5

def encodeVarint (isSigned : Bool) (in_ : UInt32) : Putter := fun s =>
  let bytes := if isSigned then sizeofInt in_.toInt32 else sizeofUint in_
  if bytes = 1 then s.write [(in_ &&& 0x7f).toUInt8]
  else
    s.write <| (0x80 ||| (bytes - 1)) ::
      if bytes = 3 then [(in_ >>> 8).toUInt8, in_.toUInt8]
      else if bytes = 4 then [(in_ >>> 16).toUInt8, (in_ >>> 8).toUInt8, in_.toUInt8]
      else if bytes = 5 then
        [(in_ >>> 24).toUInt8, (in_ >>> 16).toUInt8, (in_ >>> 8).toUInt8, in_.toUInt8]
      else [in_.toUInt8]

def putU8 (in_ : UInt8) : Putter := fun s => s.write [in_]

def putU16 (in_ : UInt16) : Putter := fun s => s.write [(in_ >>> 8).toUInt8, in_.toUInt8]

def putU32 (in_ : UInt32) : Putter := fun s =>
  s.write [(in_ >>> 24).toUInt8, (in_ >>> 16).toUInt8, (in_ >>> 8).toUInt8, in_.toUInt8]

def putU64 (in_ : UInt64) : Putter := fun s =>
  s.write [(in_ >>> 56).toUInt8, (in_ >>> 48).toUInt8, (in_ >>> 40).toUInt8, (in_ >>> 32).toUInt8,
    (in_ >>> 24).toUInt8, (in_ >>> 16).toUInt8, (in_ >>> 8).toUInt8, in_.toUInt8]

def putBool (in_ : Bool) : Putter := putU8 (if in_ then 1 else 0)

def putUint (in_ : UInt32) : Putter := encodeVarint false in_

def putInt (in_ : Int32) : Putter := encodeVarint true in_.toUInt32

def putI8 (in_ : Int8) : Putter := putU8 in_.toUInt8

def putI16 (in_ : Int16) : Putter := putU16 in_.toUInt16

def putI32 (in_ : Int32) : Putter := putU32 in_.toUInt32

def putI64 (in_ : Int64) : Putter := putU64 in_.toUInt64

/-- The argument is the float's storage, which the source copies into a uint32_t. -/
def putFloat (in_ : UInt32) : Putter := putU32 in_

def putDouble (in_ : UInt64) : Putter := putU64 in_

def putString (in_ : Bytes) : Putter :=
  (encodeVarint false in_.size).andThen fun s => s.write in_.data

def getU8 : Getter UInt8 := fun s =>
  match s.read 1 with
  | (some buf, s) => (buf.head?, s)
  | (none, s) => (none, s)

/-- The readers of wider numbers shift and or: `*out <<= 8; *out |= buf[pos]`. -/
def getU16 : Getter UInt16 := do
  let buf ← Getter.read 2
  return buf.foldl (fun out b => (out <<< 8) ||| b.toUInt16) 0

def getU32 : Getter UInt32 := do
  let buf ← Getter.read 4
  return buf.foldl (fun out b => (out <<< 8) ||| b.toUInt32) 0

def getU64 : Getter UInt64 := do
  let buf ← Getter.read 8
  return buf.foldl (fun out b => (out <<< 8) ||| b.toUInt64) 0

/-- scratch is what the uninitialised buffer[1] holds; it is looked at when the length is 0. -/
def decodeVarint (scratch : UInt8) (isSigned : Bool) : Getter UInt32 := do
  let first ← getU8
  let bytes := first &&& 0x7f
  if first < 0x80 then
    let out : UInt32 := if isSigned && first &&& 0x40 == 0x40 then 0xffffffc0 else 0
    pure (out ||| first.toUInt32)
  else if bytes ≤ 4 then
    let buffer ← Getter.read bytes.toUInt32
    let out : UInt32 := if isSigned && buffer.headD scratch &&& 0x80 == 0x80 then 0xffffffff else 0
    pure (buffer.foldl (fun out b => (out <<< 8) ||| b.toUInt32) out)
  else Getter.fail

def getUint (scratch : UInt8) : Getter UInt32 := decodeVarint scratch false

def getInt (scratch : UInt8) : Getter Int32 := do return (← decodeVarint scratch true).toInt32

def getI8 : Getter Int8 := do return (← getU8).toInt8

def getI16 : Getter Int16 := do return (← getU16).toInt16

def getI32 : Getter Int32 := do return (← getU32).toInt32

def getI64 : Getter Int64 := do return (← getU64).toInt64

def getFloat : Getter UInt32 := getU32

def getDouble : Getter UInt64 := getU64

def getBool : Getter Bool := do
  let value ← getU8
  if value == 0 || value == 1 then pure (if value == 0 then false else true)
  else Getter.fail

/-- What is in *len and in out, if anything; the size is there also when the string is not. -/
def getString (scratch : UInt8) (max : UInt32) (s : Stream) :
    Option UInt32 × Option (List UInt8) × Stream :=
  match decodeVarint scratch false s with
  | (none, s) => (none, none, s)
  | (some len, s) =>
    if len ≤ max then
      let r := s.read len
      (some len, r.1, r.2)
    else (some len, none, s)

end Aloof.C.Oer
