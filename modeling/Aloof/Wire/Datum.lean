import Mathlib.Algebra.Group.Nat.Defs
import Mathlib.Data.List.Basic

namespace Aloof

/-- The fourteen kinds of the Data choice, in the order of their tags. -/
inductive DataType where
  | nil | u8 | u16 | u32 | u64 | i8 | i16 | i32 | i64 | bool | float | double | string | blob
  deriving DecidableEq, Repr

/-- A byte string whose size a uint32 can hold. -/
structure Bytes where
  data : List UInt8
  size_lt : data.length < 2^32

def Bytes.size (b : Bytes) : UInt32 := UInt32.ofNat b.data.length

theorem Bytes.toNat_size (b : Bytes) : b.size.toNat = b.data.length :=
  UInt32.toNat_ofNat_of_lt' b.size_lt

theorem Bytes.ext_data {b b' : Bytes} (h : b.data = b'.data) : b = b' := by
  cases b
  cases b'
  cases h
  rfl

/-- A tagged value. What stands for a string is a parameter: its bytes on the sending side, its
announced size in the grammar, a window of the input on the receiving side. Floats are their
IEEE bit patterns. -/
inductive Datum (σ : Type) where
  | nil
  | u8 (v : UInt8) | u16 (v : UInt16) | u32 (v : UInt32) | u64 (v : UInt64)
  | i8 (v : Int8) | i16 (v : Int16) | i32 (v : Int32) | i64 (v : Int64)
  | bool (v : Bool)
  | float (v : UInt32) | double (v : UInt64)
  | string (v : σ) | blob (v : σ)
  deriving DecidableEq

namespace Datum

variable {σ τ : Type}

def type : Datum σ → DataType
  | nil => .nil
  | u8 _ => .u8 | u16 _ => .u16 | u32 _ => .u32 | u64 _ => .u64
  | i8 _ => .i8 | i16 _ => .i16 | i32 _ => .i32 | i64 _ => .i64
  | bool _ => .bool
  | float _ => .float | double _ => .double
  | string _ => .string | blob _ => .blob

def map (f : σ → τ) : Datum σ → Datum τ
  | nil => nil
  | u8 v => u8 v | u16 v => u16 v | u32 v => u32 v | u64 v => u64 v
  | i8 v => i8 v | i16 v => i16 v | i32 v => i32 v | i64 v => i64 v
  | bool v => bool v
  | float v => float v | double v => double v
  | string v => string (f v) | blob v => blob (f v)

/-- The string part, for the two kinds that have one. -/
def string? : Datum σ → Option σ
  | string v | blob v => some v
  | _ => none

@[simp] theorem type_map (f : σ → τ) (d : Datum σ) : (d.map f).type = d.type := by
  cases d <;> rfl

@[simp] theorem string?_map (f : σ → τ) (d : Datum σ) : (d.map f).string? = d.string?.map f := by
  cases d <;> rfl

@[simp] theorem map_map {υ : Type} (f : σ → τ) (g : τ → υ) (d : Datum σ) :
    (d.map f).map g = d.map (g ∘ f) := by
  cases d <;> rfl

theorem map_congr {f g : σ → τ} {d : Datum σ} (h : ∀ v, d.string? = some v → f v = g v) :
    d.map f = d.map g := by
  cases d
  case string v => exact congrArg string (h v rfl)
  case blob v => exact congrArg blob (h v rfl)
  all_goals rfl

end Datum

end Aloof
