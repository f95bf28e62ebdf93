import Aloof.Framework.Lines
import Aloof.Ruby.ObjectTable

namespace Aloof.Ruby

open Framework

section Words

/-- Printable, and without a space. -/
def Word (text : List Char) : Prop := ∀ c ∈ text, 32 < c.toNat ∧ c.toNat < 127

theorem word_of_all {text : List Char}
    (h : text.all (fun c => 32 < c.toNat ∧ c.toNat < 127) = true) : Word text :=
  fun c hc => of_decide_eq_true (List.all_eq_true.mp h c hc)

theorem Word.not_mem {text : List Char} (h : Word text) {b : UInt8} (hb : b ≤ 32) :
    b ∉ ascii text := by
  intro hmem
  obtain ⟨c, hc, rfl⟩ := List.mem_map.mp hmem
  have hnat : (UInt8.ofNat c.toNat).toNat = c.toNat :=
    UInt8.toNat_ofNat_of_lt' (Nat.lt_trans (h c hc).2 (by decide))
  rw [UInt8.le_iff_toNat_le, hnat] at hb
  exact absurd hb (Nat.not_le.mpr (h c hc).1)

theorem Word.chars_ascii {text : List Char} (h : Word text) : chars (ascii text) = text :=
  Ruby.chars_ascii fun c hc => Nat.lt_trans (h c hc).2 (by decide)

theorem integerToS_word (value : Int) : Word (integerToS value) := by
  have hdigits : Word (Nat.toDigits 10 value.natAbs) := by
    intro c hc
    have hdigit := Nat.isDigit_of_mem_toDigits (by decide) (by decide) hc
    have hlow : 48 ≤ c.val := of_decide_eq_true (Bool.and_eq_true_iff.mp hdigit).1
    have hhigh : c.val ≤ 57 := of_decide_eq_true (Bool.and_eq_true_iff.mp hdigit).2
    exact ⟨Nat.lt_of_lt_of_le (by decide) (UInt32.le_iff_toNat_le.mp hlow),
      Nat.lt_of_le_of_lt (UInt32.le_iff_toNat_le.mp hhigh) (by decide)⟩
  unfold integerToS
  split_ifs
  · exact List.forall_mem_cons.mpr ⟨by decide, hdigits⟩
  · exact hdigits

theorem typeName_word (type : DataType) : Word (Client.typeName type) :=
  word_of_all (by cases type <;> rfl)

/-- A type can be told from its name. -/
theorem typeName_injective : Function.Injective Client.typeName := by
  have hfind : ∀ type, (Base.types.find? fun t => Client.typeName t = Client.typeName type) =
      some type := by
    intro type
    cases type <;> rfl
  intro type type' h
  have hsame := hfind type'
  rw [← h, hfind type] at hsame
  exact Option.some.inj hsame

end Words

namespace TerminalType

theorem hexDigit_word : ∀ n < 16, 32 < (hexDigit n).toNat ∧ (hexDigit n).toNat < 127 := by
  decide

theorem hexValue_hexDigit : ∀ n < 16, StringToI.hexValue? (hexDigit n) = some n := by
  decide

theorem hex_word (bs : List UInt8) : Word (bs.flatMap hex) := by
  intro c hc
  obtain ⟨b, -, hc⟩ := List.mem_flatMap.mp hc
  have hb := b.toNat_lt
  simp only [hex, List.mem_cons, List.not_mem_nil, or_false] at hc
  rcases hc with rfl | rfl
  · exact hexDigit_word _ (by omega)
  · exact hexDigit_word _ (by omega)

/-- The bytes of hexadecimal digits. -/
def unhex : List Char → List UInt8
  | a :: b :: rest =>
    UInt8.ofNat (16 * (StringToI.hexValue? a).getD 0 + (StringToI.hexValue? b).getD 0) :: unhex rest
  | _ => []

theorem unhex_hex (bs : List UInt8) : unhex (bs.flatMap hex) = bs := by
  induction bs with
  | nil => rfl
  | cons b bs ih =>
    have hb := b.toNat_lt
    rw [List.flatMap_cons]
    change UInt8.ofNat (16 * (StringToI.hexValue? (hexDigit (b.toNat / 16))).getD 0 +
      (StringToI.hexValue? (hexDigit (b.toNat % 16))).getD 0) :: unhex (bs.flatMap hex) = b :: bs
    rw [hexValue_hexDigit _ (by omega), hexValue_hexDigit _ (by omega), Option.getD_some,
      Option.getD_some, Nat.div_add_mod, UInt8.ofNat_toNat, ih]

/-- The value of a type that is shown as this text. -/
def shown (text : List UInt8) : DataType → Value
  | .nil => .nil
  | .u8 => .u8 (StringToI.toI (chars text))
  | .u16 => .u16 (StringToI.toI (chars text))
  | .u32 => .u32 (StringToI.toI (chars text))
  | .u64 => .u64 (StringToI.toI (chars text))
  | .i8 => .i8 (StringToI.toI (chars text))
  | .i16 => .i16 (StringToI.toI (chars text))
  | .i32 => .i32 (StringToI.toI (chars text))
  | .i64 => .i64 (StringToI.toI (chars text))
  | .bool => .bool (text = ascii ['t', 'r', 'u', 'e'])
  | .string => .string (.binary text)
  | .blob => .blob (.binary (unhex (chars text)))
  -- the text is up to Float#to_s
  | .float => .float 0
  | .double => .double 0

/-- On one line, and not up to Float#to_s. -/
def Legible : Value → Prop
  | .float _ | .double _ => False
  | .string v => v = .binary v.bytes ∧ 10 ∉ v.bytes
  | .blob v => v = .binary v.bytes
  | _ => True

variable (floats : FloatText)

theorem shown_toTerminal {value : Value} (h : Legible value) :
    shown (toTerminal floats value) value.type = value := by
  cases value with
  | nil => rfl
  | bool v => cases v <;> rfl
  | float v => exact h.elim
  | double v => exact h.elim
  | string v => exact congrArg Value.string h.1.symm
  | blob v =>
    change Value.blob (.binary (unhex (chars (ascii (v.bytes.flatMap hex))))) = .blob v
    rw [(hex_word v.bytes).chars_ascii, unhex_hex]
    exact congrArg Value.blob (Eq.symm h)
  | u8 v => exact congrArg Value.u8 (toI_toS v)
  | u16 v => exact congrArg Value.u16 (toI_toS v)
  | u32 v => exact congrArg Value.u32 (toI_toS v)
  | u64 v => exact congrArg Value.u64 (toI_toS v)
  | i8 v => exact congrArg Value.i8 (toI_toS v)
  | i16 v => exact congrArg Value.i16 (toI_toS v)
  | i32 v => exact congrArg Value.i32 (toI_toS v)
  | i64 v => exact congrArg Value.i64 (toI_toS v)

theorem toTerminal_newline {value : Value} (h : Legible value) :
    10 ∉ toTerminal floats value := by
  have hinteger (v : Int) : 10 ∉ ascii (integerToS v) := (integerToS_word v).not_mem (by decide)
  cases value with
  | nil => exact List.not_mem_nil
  | bool v => cases v <;> exact (word_of_all rfl).not_mem (by decide)
  | float v => exact h.elim
  | double v => exact h.elim
  | string v => exact h.2
  | blob v => exact (hex_word v.bytes).not_mem (by decide)
  | u8 v | u16 v | u32 v | u64 v | i8 v | i16 v | i32 v | i64 v => exact hinteger v

end TerminalType

namespace CommandLine

/-- Kernel#puts of a text. -/
def puts (text : List UInt8) : List UInt8 :=
  if text.getLast? = some 10 then text else text ++ [10]

section Listen

variable (floats : FloatText)

/-- The text that the block of on_alert puts at a time. -/
def alertText (time : List UInt8) (msg : Alert) : List UInt8 :=
  ascii ['['] ++ time ++ ascii [']', ' '] ++ ascii (integerToS msg.aid) ++ ascii [' '] ++
    ascii (Client.typeName msg.value.type) ++ ascii [' '] ++
    TerminalType.toTerminal floats msg.value

/-- What the block prints of some alerts, each at its time. -/
def listen (alerts : List (List UInt8 × Alert)) : List UInt8 :=
  alerts.flatMap fun p => puts (alertText floats p.1 p.2)

/-- Nothing in it can be taken for the end of the time or of the line. -/
structure Plain (time : List UInt8) (msg : Alert) : Prop where
  close : 93 ∉ time
  newline : 10 ∉ time
  legible : TerminalType.Legible msg.value

variable {time time' : List UInt8} {msg msg' : Alert}

theorem alertText_eq (time : List UInt8) (msg : Alert) :
    alertText floats time msg = (91 :: time) ++ 93 :: (32 :: (ascii (integerToS msg.aid) ++
      32 :: (ascii (Client.typeName msg.value.type) ++
        32 :: TerminalType.toTerminal floats msg.value))) := by
  simp [alertText, ascii]

variable {floats}

/-- It is one line. -/
theorem Plain.one_line (h : Plain time msg) : 10 ∉ alertText floats time msg := by
  have haid : 10 ∉ ascii (integerToS msg.aid) := (integerToS_word _).not_mem (by decide)
  have htype : 10 ∉ ascii (Client.typeName msg.value.type) :=
    (typeName_word _).not_mem (by decide)
  have htext := TerminalType.toTerminal_newline floats h.legible
  rw [alertText_eq]
  simp [h.newline, haid, htype, htext]

/-- A line tells when it was printed, and of what. -/
theorem Plain.unique (h : Plain time msg) (h' : Plain time' msg')
    (htext : alertText floats time msg = alertText floats time' msg') :
    time = time' ∧ msg = msg' := by
  rw [alertText_eq, alertText_eq] at htext
  obtain ⟨htime, hrest⟩ := front_unique (by simpa using h.close) (by simpa using h'.close) htext
  obtain ⟨haid, hrest⟩ := front_unique ((integerToS_word _).not_mem (by decide))
    ((integerToS_word _).not_mem (by decide)) (List.cons.inj hrest).2
  obtain ⟨htype, hvalue⟩ := front_unique ((typeName_word _).not_mem (by decide))
    ((typeName_word _).not_mem (by decide)) hrest
  have haid' : msg.aid = msg'.aid := by
    have hint := congrArg (fun text => StringToI.toI (chars text)) haid
    simp only [TerminalType.toI_toS] at hint
    exact Int.ofNat.inj hint
  have htype' : msg.value.type = msg'.value.type := by
    have hchars := congrArg chars htype
    rw [(typeName_word _).chars_ascii, (typeName_word _).chars_ascii] at hchars
    exact typeName_injective hchars
  have hvalue' : msg.value = msg'.value := by
    have hshown := TerminalType.shown_toTerminal floats h.legible
    rw [hvalue, htype', TerminalType.shown_toTerminal floats h'.legible] at hshown
    exact hshown.symm
  cases msg
  cases msg'
  cases haid'
  cases hvalue'
  exact ⟨(List.cons.inj htime).2, rfl⟩

/-- What is printed tells what alerts there were, and when. -/
theorem listen_injective {ps qs : List (List UInt8 × Alert)} (hps : ∀ p ∈ ps, Plain p.1 p.2)
    (hqs : ∀ q ∈ qs, Plain q.1 q.2) (h : listen floats ps = listen floats qs) : ps = qs := by
  have hlines : ∀ ps, (∀ p ∈ ps, Plain p.1 p.2) →
      listen floats ps = lines 10 (fun p => alertText floats p.1 p.2) ps := by
    intro ps hps
    refine List.flatMap_congr fun p hp => if_neg fun hlast => ?_
    exact (hps p hp).one_line (List.mem_of_getLast? hlast)
  rw [hlines ps hps, hlines qs hqs] at h
  refine lines_injective (fun p hp => hp.one_line) (fun p q hp hq htext => ?_) hps hqs h
  obtain ⟨htime, hmsg⟩ := hp.unique hq htext
  exact Prod.ext htime hmsg

/-- A string of two lines looks like two alerts. -/
example :
    let string : RubyString := .binary (ascii "a\n[t] 2 nil ".toList)
    listen floats [(ascii ['t'], ⟨1, .string string⟩)] =
      listen floats [(ascii ['t'], ⟨1, .string (.binary (ascii ['a']))⟩), (ascii ['t'], ⟨2, .nil⟩)] :=
  rfl

end Listen

end CommandLine

end Aloof.Ruby
