import Aloof.Agreement.Command
import Aloof.Ruby.Text

namespace Aloof.Agreement

open Framework C
open Ruby (Encoded RubyString WriteCommand)

/-- There is a frame, and of it the C functions read the string, in one chunk, and nothing is left
over. -/
def Survives (oid : Nat) (value : List Char) : Prop :=
  ∃ frame, WriteCommand.encodeText oid value = .ok frame ∧ ∃ h : frame.length < 2^32,
    ∀ scratch, ∃ w s,
      Server.parseBody scratch (Stream.initRo frame h) =
        (some (.write (UInt32.ofNat oid) (.string w)), s) ∧
      ∀ max ≥ w.size, (Data.getString (.string w) s max).value = (Encoded.text value).bytes ∧
        (Data.getString (.string w) s max).s.rest = []

theorem encode_text (oid : Nat) (value : List Char) :
    WriteCommand.encode ⟨oid, .string (RubyString.text value)⟩ =
      (0 :: Varint.encode oid ++ 12 :: Varint.encode value.length) ++
        (Encoded.text value).bytes := by
  have htag : Ruby.OutputCodec.putU8 (Ruby.Base.types.idxOf .string : Nat) = [12] := by decide
  have hzero : Varint.encode WriteCommand.tag = [0] := by decide
  rw [WriteCommand.encode, Ruby.Base.putValue, Ruby.Value.type, htag, Ruby.Base.putTyped,
    Ruby.OutputCodec.putString, Ruby.OutputCodec.putUint_eq, Ruby.OutputCodec.putUint_eq,
    Ruby.OutputCodec.putUint_eq, hzero]
  simp [RubyString.text]

theorem length_encode_text (oid : Nat) (value : List Char) :
    (WriteCommand.encode ⟨oid, .string (RubyString.text value)⟩).length =
      2 + Ruby.OutputCodec.sizeofUint oid + Ruby.OutputCodec.sizeofUint value.length +
        (Encoded.text value).bytes.length := by
  rw [encode_text]
  simp only [List.length_append, List.length_cons, Ruby.OutputCodec.length_encode]
  omega

theorem body_text_decodes (oid size : Nat) :
    Decoder.Decodes Grammar.body (0 :: Varint.encode oid ++ 12 :: Varint.encode size)
      (.write (UInt32.ofNat oid) (.string (UInt32.ofNat size))) := by
  apply body_write_of_data
  intro rest
  rw [Grammar.data, List.cons_append, Decoder.bind_ok (Grammar.octet_cons _ _)]
  exact (Grammar.uint_encode size).map Datum.string rest

theorem length_lt_of_frame {oid : Nat} {value : List Char} {frame : List UInt8}
    (hframe : frame = WriteCommand.encode ⟨oid, .string (RubyString.text value)⟩)
    (h : frame.length < 2^32) : value.length < 2^32 := by
  have hle := Encoded.length_le_text value
  have hall := length_encode_text oid value
  rw [← hframe] at hall
  omega

/-- The server takes as many bytes as the string has characters. -/
theorem parse_text {oid : Nat} {value : List Char} {frame : List UInt8}
    (hframe : frame = WriteCommand.encode ⟨oid, .string (RubyString.text value)⟩)
    (h : frame.length < 2^32) (scratch : UInt8) :
    ∃ s, Server.parseBody scratch (Stream.initRo frame h) = (some (.write (UInt32.ofNat oid)
        (.string ⟨UInt32.ofNat value.length, s.pos⟩)), s) ∧
      s.rest = (Encoded.text value).bytes := by
  have hbody := body_text_decodes oid value.length (Encoded.text value).bytes
  rw [← encode_text, ← hframe, ← Stream.rest_initRo h] at hbody
  obtain ⟨hparse, hrest⟩ := Server.parseBody_write scratch hbody
  exact ⟨_, hparse, hrest⟩

/-- And gets no more of it than that. -/
theorem getString_text {n : Nat} (hn : n < 2^32) {s : Stream} (hle : n ≤ s.rest.length)
    {max : UInt32} (hmax : UInt32.ofNat n ≤ max) :
    (Data.getString (.string ⟨UInt32.ofNat n, s.pos⟩) s max).value = s.rest.take n ∧
      (Data.getString (.string ⟨UInt32.ofNat n, s.pos⟩) s max).s = s.skip n := by
  have hsize : (UInt32.ofNat n).toNat = n := UInt32.toNat_ofNat_of_lt' hn
  obtain ⟨-, hvalue, hs⟩ := Data.getString_whole (d := .string ⟨UInt32.ofNat n, s.pos⟩) rfl rfl
    (by rw [hsize]; exact hle) hmax
  rw [hsize] at hvalue hs
  exact ⟨hvalue, hs⟩

theorem ascii_of_survives {oid : Nat} {value : List Char} (h : Survives oid value) :
    ∀ c ∈ value, c.val ≤ 127 := by
  obtain ⟨frame, hencode, hlen, hparses⟩ := h
  have hframe := WriteCommand.bytes_encodeText hencode
  obtain ⟨w, s, hparse, hget⟩ := hparses 0
  obtain ⟨s', hparse', hrest⟩ := parse_text hframe hlen 0
  cases hparse.symm.trans hparse'
  have hle := Encoded.length_le_text value
  have hchunk := getString_text (length_lt_of_frame hframe hlen) (hrest ▸ hle)
    (UInt32.le_iff_toNat_le.mpr (Nat.le_refl _))
  have hvalue := (hget _ (UInt32.le_iff_toNat_le.mpr (Nat.le_refl _))).1
  rw [hchunk.1, hrest] at hvalue
  have htake := congrArg List.length hvalue
  rw [List.length_take_of_le hle] at htake
  exact (Encoded.length_text_eq_iff value).mp htake.symm

theorem text_survives (oid : Nat) (value : List Char) :
    Survives oid value ↔ (∀ c ∈ value, c.val ≤ 127) ∧
      2 + Ruby.OutputCodec.sizeofUint oid + Ruby.OutputCodec.sizeofUint value.length +
        value.length < 2^32 := by
  constructor
  · intro h
    have hascii := ascii_of_survives h
    refine ⟨hascii, ?_⟩
    obtain ⟨frame, hencode, hlen, -⟩ := h
    rwa [WriteCommand.bytes_encodeText hencode, length_encode_text,
      (Encoded.length_text_eq_iff value).mpr hascii] at hlen
  · intro h
    have hbytes := (Encoded.length_text_eq_iff value).mpr h.1
    have hlen := length_encode_text oid value
    rw [hbytes] at hlen
    refine ⟨_, WriteCommand.encodeText_ascii oid (Encoded.asciiOnly_text h.1), hlen ▸ h.2, ?_⟩
    intro scratch
    obtain ⟨s, hparse, hrest⟩ := parse_text rfl (hlen ▸ h.2) scratch
    refine ⟨_, s, hparse, ?_⟩
    intro max hmax
    have hrestlen : s.rest.length = value.length := by rw [hrest, hbytes]
    have hchunk := getString_text (length_lt_of_frame rfl (hlen ▸ h.2)) (Nat.le_of_eq hrestlen.symm)
      hmax
    rw [hchunk.1, hchunk.2, Stream.rest_skip (Nat.le_of_eq hrestlen.symm), ← hrestlen,
      List.take_length, List.drop_length, hrest]
    exact ⟨rfl, rfl⟩

/-- 00 05 0c 01 c3 a9 is sent for é, and the server takes c3 for all of it. -/
theorem text_survives_wide : (5 : Nat) < 2^32 ∧
    WriteCommand.encodeText 5 ['é'] = .ok [0x00, 0x05, 0x0c, 0x01, 0xc3, 0xa9] ∧
    ¬ Survives 5 ['é'] := by
  refine ⟨by decide, by decide, ?_⟩
  intro h
  have hascii := ascii_of_survives h 'é' List.mem_cons_self
  exact absurd hascii (by decide)

end Aloof.Agreement
