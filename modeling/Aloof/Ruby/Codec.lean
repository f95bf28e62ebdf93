import Aloof.Framework.Binary
import Aloof.Framework.Decoder
import Aloof.Framework.Octets
import Aloof.Wire.Datum

namespace Aloof.Ruby

open Framework

/-- The classes of the exceptions raised while decoding, all of them StandardErrors. -/
inductive Error where
  | eof | encoding | codec | name
  deriving DecidableEq

/-- A String: its bytes, and what String#size counts, which is characters. -/
structure RubyString where
  bytes : List UInt8
  size : Nat
  deriving DecidableEq

/-- A String in binary encoding. -/
def RubyString.binary (bytes : List UInt8) : RubyString := ⟨bytes, bytes.length⟩

/-- A type symbol with a value of a class that its put method takes. For :float this is a Float of 64
bits, or the 32 bits that are packed for it. Floats are bit patterns. -/
inductive Value (φ : Type := UInt32) where
  | nil
  | u8 (v : Int) | u16 (v : Int) | u32 (v : Int) | u64 (v : Int)
  | i8 (v : Int) | i16 (v : Int) | i32 (v : Int) | i64 (v : Int)
  | bool (v : Bool)
  | float (v : φ) | double (v : UInt64)
  | string (v : RubyString) | blob (v : RubyString)
  deriving DecidableEq

def Value.type {φ : Type} : Value φ → DataType
  | nil => .nil
  | u8 _ => .u8 | u16 _ => .u16 | u32 _ => .u32 | u64 _ => .u64
  | i8 _ => .i8 | i16 _ => .i16 | i32 _ => .i32 | i64 _ => .i64
  | bool _ => .bool
  | float _ => .float | double _ => .double
  | string _ => .string | blob _ => .blob

def Value.map {φ ψ : Type} (f : φ → ψ) : Value φ → Value ψ
  | nil => .nil
  | u8 v => .u8 v | u16 v => .u16 v | u32 v => .u32 v | u64 v => .u64 v
  | i8 v => .i8 v | i16 v => .i16 v | i32 v => .i32 v | i64 v => .i64 v
  | bool v => .bool v
  | float v => .float (f v) | double v => .double v
  | string v => .string v | blob v => .blob v

/-- [value].pack with a big-endian directive of k bytes. -/
def pack (k : Nat) (value : Int) : List UInt8 := octets k (value % 256^k).toNat

-- A put method is given by the bytes that it concatenates to the buffer.
namespace OutputCodec

def sizeofInt (value : Int) : Nat :=
  if value < 0 then
    if value ≥ -64 then 1
    else if value ≥ -8192 then 2
    else if value ≥ -32768 then 3
    else if value ≥ -8388608 then 4
    else 5
  else
    if value ≤ 0x3f then 1
    else if value ≤ 0x1fff then 2
    else if value ≤ 0x7fff then 3
    else if value ≤ 0x7fffff then 4
    else 5

def sizeofUint (value : Nat) : Nat :=
  if value < 0x80 then 1
  else if value < 0x100 then 2
  else if value < 0x10000 then 3
  else if value < 0x1000000 then 4
  else 5

def putNil : List UInt8 := []

/-- pack("L<") has the lowest byte first. -/
def putUint (value : Nat) : List UInt8 :=
  match sizeofUint value with
  | 1 => pack 1 value
  | size => pack 1 (0x80 ||| (size - 1) : Nat) ++ ((pack 4 value).reverse.take (size - 1)).reverse

/-- pack("l>") has the highest byte first, and the slice is from that end. -/
def putInt (value : Int) : List UInt8 :=
  match sizeofInt value with
  | 1 => pack 1 value
  | size => pack 1 (0x80 ||| (size - 1) : Nat) ++ ((pack 4 value).take (size - 1)).reverse

def putU8 (value : Int) : List UInt8 := pack 1 value

def putU16 (value : Int) : List UInt8 := pack 2 value

def putU32 (value : Int) : List UInt8 := pack 4 value

def putU64 (value : Int) : List UInt8 := pack 8 value

def putI8 (value : Int) : List UInt8 := pack 1 value

def putI16 (value : Int) : List UInt8 := pack 2 value

def putI32 (value : Int) : List UInt8 := pack 4 value

def putI64 (value : Int) : List UInt8 := pack 8 value

def putString (value : RubyString) : List UInt8 := putUint value.size ++ value.bytes

def putBool (value : Bool) : List UInt8 := pack 1 (if value then 1 else 0)

/-- The bits that pack("g") leaves of a Float. -/
def putSingle (value : UInt32) : List UInt8 := pack 4 value.toNat

def putFloat (value : UInt64) : List UInt8 := putSingle (Binary64.narrow value)

def putDouble (value : UInt64) : List UInt8 := pack 8 value.toNat

end OutputCodec

namespace InputCodec

/-- slice!(0,n), once the size of what is left has been checked. -/
def slice (n : Nat) : Decoder Error UInt8 (List UInt8) := Decoder.chunk .eof n

/-- unpack with a big-endian directive of k bytes. -/
def unsigned (k : Nat) : Decoder Error UInt8 Int := do return ofOctets (← slice k)

def signed (k : Nat) : Decoder Error UInt8 Int := do
  return (ofOctets (← slice k) : Int).bmod (256^k)

def getU8 : Decoder Error UInt8 Int := unsigned 1

def getU16 : Decoder Error UInt8 Int := unsigned 2

def getU32 : Decoder Error UInt8 Int := unsigned 4

def getU64 : Decoder Error UInt8 Int := unsigned 8

def getI8 : Decoder Error UInt8 Int := signed 1

def getI16 : Decoder Error UInt8 Int := signed 2

def getI32 : Decoder Error UInt8 Int := signed 4

def getI64 : Decoder Error UInt8 Int := signed 8

/-- The bits that unpack("g") makes a Float of. -/
def getSingle : Decoder Error UInt8 UInt32 := do return UInt32.ofNat (ofOctets (← slice 4))

def getFloat : Decoder Error UInt8 UInt64 := do return Binary32.widen (← getSingle)

def getDouble : Decoder Error UInt8 UInt64 := do return UInt64.ofNat (ofOctets (← slice 8))

/-- get_u8 where the number is looked at bit by bit. -/
def getByte : Decoder Error UInt8 UInt8 := Decoder.next .eof

def getBool : Decoder Error UInt8 Bool := do
  match (← getByte).toNat with
  | 0 => return false
  | 1 => return true
  | _ => Decoder.fail .codec

def padding1 : List UInt8 := [0, 0, 0, 0]

def padding2 : List UInt8 := [0xff, 0xff, 0xff, 0xff]

/-- unpack("L<") looks at four bytes, the lowest first. -/
def getUint : Decoder Error UInt8 Nat := do
  let first ← getByte
  if first > 0x80 then
    let n := (first &&& 0x7f).toNat
    fun s =>
      if s.length < n then .error .eof
      else if n > 4 then .error .encoding
      else .ok (ofOctets (((s.take n).reverse ++ padding1).take 4).reverse, s.drop n)
  else if first = 0x80 then Decoder.fail .encoding
  else return first.toNat

/-- There is a last byte in tmp, because n is not 0. -/
def getInt : Decoder Error UInt8 Int := do
  let first ← getByte
  if first > 0x80 then
    let n := (first &&& 0x7f).toNat
    fun s =>
      if s.length < n then .error .eof
      else if n > 4 then .error .encoding
      else
        let tmp := (s.take n).reverse
        let padded := if tmp.getLastD 0 < 0x80 then tmp ++ padding1 else tmp ++ padding2
        .ok ((ofOctets (padded.take 4).reverse : Int).bmod (256^4), s.drop n)
  else if first = 0x80 then Decoder.fail .encoding
  else if first ≥ 0x40 then return (ofOctets (pack 1 (first ||| 0x80).toNat) : Int).bmod 256
  else return first.toNat

def getString : Decoder Error UInt8 RubyString := do
  let n ← getUint
  return RubyString.binary (← slice n)

end InputCodec

end Aloof.Ruby
