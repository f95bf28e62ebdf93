import Aloof.Ruby.Message

namespace Aloof.Ruby

/-- The bytes of a text in ASCII. -/
def ascii (text : List Char) : List UInt8 := text.map fun c => UInt8.ofNat c.toNat

def chars (bytes : List UInt8) : List Char := bytes.map fun b => Char.ofNat b.toNat

/-- Integer#to_s. -/
def integerToS (value : Int) : List Char :=
  if value < 0 then '-' :: Nat.toDigits 10 value.natAbs else Nat.toDigits 10 value.natAbs

namespace StringToI

def isSpace (c : Char) : Bool := c = ' ' || ('\t' ≤ c && c ≤ '\r')

/-- The digits up to the first character that is none; one underscore between two of them does
not count. -/
def digits (acc : Nat) : List Char → Nat
  | [] => acc
  | '_' :: c :: rest => if c.isDigit then digits acc (c :: rest) else acc
  | c :: rest => if c.isDigit then digits (10 * acc + (c.toNat - '0'.toNat)) rest else acc

def afterPrefix : List Char → List Char
  | '0' :: 'd' :: rest | '0' :: 'D' :: rest => rest
  | text => text

/-- A text without a number is 0. -/
def unsigned (text : List Char) : Nat :=
  match afterPrefix text with
  | [] => 0
  | c :: rest => if c.isDigit then digits 0 (c :: rest) else 0

/-- String#to_i. -/
def toI (text : List Char) : Int :=
  match text.dropWhile isSpace with
  | '+' :: rest => unsigned rest
  | '-' :: rest => -unsigned rest
  | rest => unsigned rest

/-- Without an underscore it is the usual reading of digits. -/
theorem digits_eq {text : List Char} (h : ∀ c ∈ text, c.isDigit = true) (acc : Nat) :
    digits acc text = Nat.ofDigitChars 10 text acc := by
  fun_induction digits acc text with
  | case1 acc => rfl
  | case2 acc c rest hc ih => exact absurd (h '_' List.mem_cons_self) (by decide)
  | case3 acc c rest hc => exact absurd (h '_' List.mem_cons_self) (by decide)
  | case4 acc c rest hne hc ih =>
    rw [ih fun d hd => h d (List.mem_cons_of_mem c hd), Nat.ofDigitChars_cons]
  | case5 acc c rest hne hc => exact absurd (h c List.mem_cons_self) hc

theorem unsigned_eq {text : List Char} (h : ∀ c ∈ text, c.isDigit = true) (hne : text ≠ []) :
    unsigned text = Nat.ofDigitChars 10 text 0 := by
  have hprefix : afterPrefix text = text := by
    unfold afterPrefix
    split
    · exact absurd (h 'd' (by simp)) (by decide)
    · exact absurd (h 'D' (by simp)) (by decide)
    · rfl
  rw [unsigned, hprefix]
  cases text with
  | nil => exact absurd rfl hne
  | cons c rest =>
    rw [← digits_eq h]
    exact if_pos (h c List.mem_cons_self)

theorem unsigned_toDigits (n : Nat) : unsigned (Nat.toDigits 10 n) = n := by
  rw [unsigned_eq (fun c hc => Nat.isDigit_of_mem_toDigits (by decide) (by decide) hc)
    Nat.toDigits_ne_nil, Nat.ofDigitChars_ten_toDigits]

/-- A digit is neither space nor a sign. -/
theorem toI_digits {c : Char} {rest : List Char} (h : c.isDigit = true) :
    toI (c :: rest) = unsigned (c :: rest) := by
  have hspace : isSpace c = false := by
    have hlow : 48 ≤ c.val := of_decide_eq_true (Bool.and_eq_true_iff.mp h).1
    have hne : c ≠ ' ' := fun heq => absurd (heq ▸ h) (by decide)
    have hhigh : ¬ c ≤ '\r' := by
      intro hle
      exact absurd (UInt32.le_trans hlow hle) (by decide)
    simp [isSpace, hne, hhigh]
  rw [toI, List.dropWhile_cons, hspace, if_neg Bool.false_ne_true]
  split
  next hplus =>
    cases hplus
    exact absurd h (by decide)
  next hminus =>
    cases hminus
    exact absurd h (by decide)
  · rfl

/-- to_i takes back every integer that to_s gives. -/
theorem toI_integerToS (value : Int) : toI (integerToS value) = value := by
  unfold integerToS
  split_ifs with h
  · have hminus : toI ('-' :: Nat.toDigits 10 value.natAbs) =
        -(unsigned (Nat.toDigits 10 value.natAbs) : Int) := rfl
    rw [hminus, unsigned_toDigits]
    omega
  · cases hdigits : Nat.toDigits 10 value.natAbs with
    | nil => exact absurd hdigits Nat.toDigits_ne_nil
    | cons c rest =>
      have hc : c.isDigit = true := by
        apply Nat.isDigit_of_mem_toDigits (b := 10) (n := value.natAbs) (by decide) (by decide)
        rw [hdigits]
        exact List.mem_cons_self
      rw [toI_digits hc, ← hdigits, unsigned_toDigits]
      omega

end StringToI

/-- Float#to_s and String#to_f, on the bit patterns of the two formats. For :float these are the text
of the Float that get_float makes of 32 bits, and the bits that put_float packs of what is typed. -/
structure FloatText where
  floatToS : UInt32 → List UInt8
  doubleToS : UInt64 → List UInt8
  toFloat : List UInt8 → UInt32
  toDouble : List UInt8 → UInt64

inductive TerminalError where
  | argumentError | noMethodError | runtimeError
  deriving DecidableEq

namespace TerminalType

/-- to_s of a value of each class. -/
def toS (floats : FloatText) : Value → List UInt8
  | .nil => []
  | .u8 v | .u16 v | .u32 v | .u64 v | .i8 v | .i16 v | .i32 v | .i64 v => ascii (integerToS v)
  | .bool v => ascii (if v then ['t', 'r', 'u', 'e'] else ['f', 'a', 'l', 's', 'e'])
  | .float v => floats.floatToS v
  | .double v => floats.doubleToS v
  | .string v | .blob v => v.bytes

def hexDigit (n : Nat) : Char :=
  ['0', '1', '2', '3', '4', '5', '6', '7', '8', '9', 'A', 'B', 'C', 'D', 'E', 'F'].getD n '0'

/-- "%02X". -/
def hex (b : UInt8) : List Char := [hexDigit (b.toNat / 16), hexDigit (b.toNat % 16)]

/-- The type is that of the value. -/
def toTerminal (floats : FloatText) : Value → List UInt8
  | .blob v => ascii (v.bytes.flatMap hex)
  | value => toS floats value

/-- String has no method pack, and raise without an argument is a RuntimeError. -/
def fromTerminal (floats : FloatText) (type : DataType) (value : List UInt8) :
    Except TerminalError Value :=
  let toI := StringToI.toI (chars value)
  match type with
  | .bool =>
    let downcase := (chars value).map Char.toLower
    if downcase = ['t', 'r', 'u', 'e'] then .ok (.bool true)
    else if downcase = ['f', 'a', 'l', 's', 'e'] then .ok (.bool false)
    else .error .argumentError
  | .u8 => .ok (.u8 toI)
  | .u16 => .ok (.u16 toI)
  | .u32 => .ok (.u32 toI)
  | .u64 => .ok (.u64 toI)
  | .i8 => .ok (.i8 toI)
  | .i16 => .ok (.i16 toI)
  | .i32 => .ok (.i32 toI)
  | .i64 => .ok (.i64 toI)
  | .float => .ok (.float (floats.toFloat value))
  | .double => .ok (.double (floats.toDouble value))
  | .blob => .error .noMethodError
  | .nil | .string => .error .runtimeError

end TerminalType

theorem chars_ascii {text : List Char} (h : ∀ c ∈ text, c.toNat < 256) :
    chars (ascii text) = text := by
  have hchar : ∀ c ∈ text, Char.ofNat (UInt8.ofNat c.toNat).toNat = c := by
    intro c hc
    rw [UInt8.toNat_ofNat_of_lt' (h c hc), Char.ofNat_toNat]
  rw [chars, ascii, List.map_map]
  exact (List.map_congr_left (g := id) hchar).trans (List.map_id text)

theorem integerToS_ascii (value : Int) : ∀ c ∈ integerToS value, c.toNat < 256 := by
  have hdigits : ∀ c ∈ Nat.toDigits 10 value.natAbs, c.toNat < 256 := by
    intro c hc
    have hdigit := Nat.isDigit_of_mem_toDigits (by decide) (by decide) hc
    have hhigh : c.val ≤ 57 := of_decide_eq_true (Bool.and_eq_true_iff.mp hdigit).2
    exact Nat.lt_of_le_of_lt (UInt32.le_iff_toNat_le.mp hhigh) (by decide)
  unfold integerToS
  split_ifs
  · exact List.forall_mem_cons.mpr ⟨by decide, hdigits⟩
  · exact hdigits

namespace TerminalType

/-- The text that is printed for the value is taken for it. -/
def ReadsBack (floats : FloatText) (value : Value) : Prop :=
  fromTerminal floats value.type (toTerminal floats value) = .ok value

theorem toI_toS (value : Int) : StringToI.toI (chars (ascii (integerToS value))) = value := by
  rw [chars_ascii (integerToS_ascii value), StringToI.toI_integerToS]

theorem terminal_readsBack (floats : FloatText) (value : Value)
    (htype : value.type ∉ [DataType.nil, .float, .double]) :
    ReadsBack floats value ↔ value.type ≠ .string ∧ value.type ≠ .blob := by
  have hinteger (k : Int → Value) (v : Int) :
      (.ok (k (StringToI.toI (chars (ascii (integerToS v))))) : Except TerminalError Value) =
        .ok (k v) := by
    rw [toI_toS]
  cases value with
  | nil => exact absurd List.mem_cons_self htype
  | float v => exact absurd (List.mem_cons_of_mem _ List.mem_cons_self) htype
  | double v => exact absurd (by decide : DataType.double ∈ [DataType.nil, .float, .double]) htype
  | string v => exact iff_of_false nofun fun h => h.1 rfl
  | blob v => exact iff_of_false nofun fun h => h.2 rfl
  | bool v => cases v <;> exact iff_of_true rfl ⟨nofun, nofun⟩
  | u8 v => exact iff_of_true (hinteger .u8 v) ⟨nofun, nofun⟩
  | u16 v => exact iff_of_true (hinteger .u16 v) ⟨nofun, nofun⟩
  | u32 v => exact iff_of_true (hinteger .u32 v) ⟨nofun, nofun⟩
  | u64 v => exact iff_of_true (hinteger .u64 v) ⟨nofun, nofun⟩
  | i8 v => exact iff_of_true (hinteger .i8 v) ⟨nofun, nofun⟩
  | i16 v => exact iff_of_true (hinteger .i16 v) ⟨nofun, nofun⟩
  | i32 v => exact iff_of_true (hinteger .i32 v) ⟨nofun, nofun⟩
  | i64 v => exact iff_of_true (hinteger .i64 v) ⟨nofun, nofun⟩

/-- Right about 0.0. -/
def zeroText : FloatText where
  floatToS _ := ascii ['0', '.', '0']
  doubleToS _ := ascii ['0', '.', '0']
  toFloat _ := 0
  toDouble _ := 0

theorem terminal_readsBack_least : ReadsBack zeroText (.i64 (-9223372036854775808)) :=
  (terminal_readsBack zeroText (.i64 (-9223372036854775808)) (by decide)).mpr (by decide)

/-- The string a is printed as itself, and the blob AB in hexadecimal; both texts are refused. -/
theorem terminal_readsBack_refused :
    fromTerminal zeroText .string (toTerminal zeroText (.string (.binary [0x61]))) =
      .error .runtimeError ∧
    fromTerminal zeroText .blob (toTerminal zeroText (.blob (.binary [0xab]))) =
      .error .noMethodError ∧
    ¬ ReadsBack zeroText (.string (.binary [0x61])) ∧
    ¬ ReadsBack zeroText (.blob (.binary [0xab])) :=
  ⟨rfl, rfl, nofun, nofun⟩

end TerminalType

end Aloof.Ruby
