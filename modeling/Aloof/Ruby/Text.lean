import Aloof.Ruby.Message

namespace Aloof.Ruby

inductive Encoding where
  | utf8 | binary
  deriving DecidableEq

/-- A String as its bytes and its encoding. -/
structure Encoded where
  bytes : List UInt8
  encoding : Encoding
  deriving DecidableEq

/-- The one exception of concat. -/
inductive EncodingError where
  | compatibility
  deriving DecidableEq

namespace Encoded

def asciiOnly (self : Encoded) : Bool := self.bytes.all (· < 0x80)

/-- The string of these characters. -/
def text (value : List Char) : Encoded := ⟨value.flatMap String.utf8EncodeChar, .utf8⟩

/-- String#concat. -/
def concat (self str : Encoded) : Except EncodingError Encoded :=
  if self.encoding = str.encoding ∨ str.asciiOnly then .ok ⟨self.bytes ++ str.bytes, self.encoding⟩
  else if self.asciiOnly then .ok ⟨self.bytes ++ str.bytes, str.encoding⟩
  else .error .compatibility

/-- What pack returns is binary. -/
def concatPacked (self : Encoded) (bytes : List UInt8) : Except EncodingError Encoded :=
  self.concat ⟨bytes, .binary⟩

end Encoded

namespace OutputCodec

def bufferPutUint (buffer : Encoded) (value : Nat) : Except EncodingError Encoded :=
  match sizeofUint value with
  | 1 => buffer.concatPacked (pack 1 value)
  | size => do
    let buffer ← buffer.concatPacked (pack 1 (0x80 ||| (size - 1) : Nat))
    buffer.concatPacked ((pack 4 value).reverse.take (size - 1)).reverse

def bufferPutU8 (buffer : Encoded) (value : Int) : Except EncodingError Encoded :=
  buffer.concatPacked (pack 1 value)

def bufferPutString (buffer : Encoded) (value : List Char) : Except EncodingError Encoded := do
  let buffer ← bufferPutUint buffer value.length
  buffer.concat (.text value)

end OutputCodec

/-- The buffer starts as the string literal. -/
def WriteCommand.encodeText (oid : Nat) (value : List Char) :
    Except EncodingError (List UInt8) := do
  let buf ← OutputCodec.bufferPutUint ⟨[], .utf8⟩ tag
  let buf ← OutputCodec.bufferPutUint buf oid
  let buf ← OutputCodec.bufferPutU8 buf (Base.types.idxOf .string)
  let buf ← OutputCodec.bufferPutString buf value
  return buf.bytes

/-- The same string as an argument that put_string takes. -/
def RubyString.text (value : List Char) : RubyString :=
  ⟨(Encoded.text value).bytes, value.length⟩

namespace Encoded

/-- What was packed into a buffer in UTF-8 was ASCII so far. -/
def Packed (self : Encoded) : Prop := self.encoding = .utf8 → self.asciiOnly = true

theorem asciiOnly_append (xs ys : List UInt8) (e : Encoding) :
    asciiOnly ⟨xs ++ ys, e⟩ = (asciiOnly ⟨xs, e⟩ && asciiOnly ⟨ys, e⟩) := List.all_append

theorem concatPacked_ok {self : Encoded} (h : self.Packed) (bytes : List UInt8) :
    ∃ buffer, self.concatPacked bytes = .ok buffer ∧ buffer.bytes = self.bytes ++ bytes ∧
      buffer.Packed := by
  obtain ⟨front, encoding⟩ := self
  cases encoding with
  | binary =>
    refine ⟨⟨front ++ bytes, .binary⟩, ?_, rfl, ?_⟩
    · rw [concatPacked, concat, if_pos (Or.inl rfl)]
    · intro h
      cases h
  | utf8 =>
    have hfront : asciiOnly ⟨front, .utf8⟩ = true := h rfl
    by_cases hbytes : asciiOnly ⟨bytes, .binary⟩ = true
    · refine ⟨⟨front ++ bytes, .utf8⟩, ?_, rfl, ?_⟩
      · rw [concatPacked, concat, if_pos (Or.inr hbytes)]
      · intro _
        rw [asciiOnly_append, hfront]
        exact hbytes
    · refine ⟨⟨front ++ bytes, .binary⟩, ?_, rfl, ?_⟩
      · rw [concatPacked, concat, if_neg (by simp [hbytes]), if_pos hfront]
      · intro h
        cases h

theorem bytes_concat {self str buffer : Encoded} (h : self.concat str = .ok buffer) :
    buffer.bytes = self.bytes ++ str.bytes := by
  unfold concat at h
  split_ifs at h
  · cases h
    rfl
  · cases h
    rfl

end Encoded

theorem OutputCodec.bufferPutUint_ok {buffer : Encoded} (h : buffer.Packed) (value : Nat) :
    ∃ buffer', bufferPutUint buffer value = .ok buffer' ∧
      buffer'.bytes = buffer.bytes ++ putUint value ∧ buffer'.Packed := by
  rcases hsize : sizeofUint value with _ | _ | k
  · unfold sizeofUint at hsize
    split_ifs at hsize
  · simp only [bufferPutUint, putUint, hsize]
    exact Encoded.concatPacked_ok h _
  · simp only [bufferPutUint, putUint, hsize]
    obtain ⟨first, hfirst, hbytes, hpacked⟩ := Encoded.concatPacked_ok h _
    obtain ⟨rest, hrest, hbytes', hpacked'⟩ := Encoded.concatPacked_ok hpacked _
    refine ⟨rest, ?_, ?_, hpacked'⟩
    · rw [hfirst]
      exact hrest
    · rw [hbytes', hbytes, List.append_assoc]

namespace WriteCommand

/-- Only the last concat can fail. -/
theorem encodeText_eq (oid : Nat) (value : List Char) :
    ∃ buffer : Encoded, encodeText oid value =
      (buffer.concat (.text value)).map Encoded.bytes ∧
      buffer.bytes ++ (Encoded.text value).bytes =
        encode ⟨oid, .string (RubyString.text value)⟩ := by
  have hempty : Encoded.Packed ⟨[], .utf8⟩ := fun _ => rfl
  obtain ⟨b1, h1, hb1, hp1⟩ := OutputCodec.bufferPutUint_ok hempty tag
  obtain ⟨b2, h2, hb2, hp2⟩ := OutputCodec.bufferPutUint_ok hp1 oid
  obtain ⟨b3, h3, hb3, hp3⟩ := Encoded.concatPacked_ok hp2
    (pack 1 (Base.types.idxOf .string : Nat))
  obtain ⟨b4, h4, hb4, -⟩ := OutputCodec.bufferPutUint_ok hp3 value.length
  refine ⟨b4, ?_, ?_⟩
  · simp only [encodeText, OutputCodec.bufferPutU8, OutputCodec.bufferPutString, h1, h2, h3, h4,
      bind, Except.bind]
    cases b4.concat (.text value) <;> rfl
  · rw [hb4, hb3, hb2, hb1]
    simp [encode, Base.putValue, Value.type, OutputCodec.putU8, Base.putTyped,
      OutputCodec.putString, RubyString.text]

theorem bytes_encodeText {oid : Nat} {value : List Char} {frame : List UInt8}
    (h : encodeText oid value = .ok frame) :
    frame = encode ⟨oid, .string (RubyString.text value)⟩ := by
  obtain ⟨buffer, hrun, hframe⟩ := encodeText_eq oid value
  rw [hrun] at h
  cases hconcat : buffer.concat (.text value) with
  | error e =>
    rw [hconcat] at h
    cases h
  | ok whole =>
    rw [hconcat] at h
    cases h
    rw [← hframe]
    exact Encoded.bytes_concat hconcat

/-- ASCII goes with any encoding. -/
theorem encodeText_ascii {value : List Char} (oid : Nat)
    (h : (Encoded.text value).asciiOnly = true) :
    encodeText oid value = .ok (encode ⟨oid, .string (RubyString.text value)⟩) := by
  obtain ⟨buffer, hrun, hframe⟩ := encodeText_eq oid value
  rw [hrun, Encoded.concat, if_pos (Or.inr h), ← hframe]
  rfl

end WriteCommand

namespace Encoded

theorem length_text_cons (c : Char) (value : List Char) :
    (text (c :: value)).bytes.length = c.utf8Size + (text value).bytes.length := by
  simp [text]

/-- A character has at least one byte. -/
theorem length_le_text (value : List Char) : value.length ≤ (text value).bytes.length := by
  induction value with
  | nil => exact Nat.zero_le _
  | cons c value ih =>
    have hc := c.utf8Size_pos
    rw [length_text_cons, List.length_cons]
    omega

/-- And only ASCII characters have no more. -/
theorem length_text_eq_iff (value : List Char) :
    (text value).bytes.length = value.length ↔ ∀ c ∈ value, c.val ≤ 127 := by
  induction value with
  | nil => simp [text]
  | cons c value ih =>
    have hc := c.utf8Size_pos
    have hone : c.utf8Size = 1 ↔ c.val ≤ 127 := Char.utf8Size_eq_one_iff
    have hle := length_le_text value
    rw [length_text_cons, List.length_cons, List.forall_mem_cons, ← ih, ← hone]
    omega

theorem asciiOnly_text {value : List Char} (h : ∀ c ∈ value, c.val ≤ 127) :
    (text value).asciiOnly = true := by
  rw [asciiOnly, text, List.all_flatMap, List.all_eq_true]
  intro c hc
  have hle : c.val.toNat ≤ 127 := UInt32.le_iff_toNat_le.mp (h c hc)
  have hbyte : c.val.toUInt8 < 0x80 := by
    rw [UInt8.lt_iff_toNat_lt, UInt32.toNat_toUInt8]
    exact Nat.lt_of_le_of_lt (Nat.mod_le _ _) (Nat.lt_succ_of_le hle)
  rw [String.utf8EncodeChar_eq_singleton (Char.utf8Size_eq_one_iff.mpr (h c hc))]
  simpa using hbyte

end Encoded

end Aloof.Ruby
