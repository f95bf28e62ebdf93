import Aloof.C.Crc
import Aloof.C.SlipProof
import Aloof.Framework.Receivers
import Aloof.Ruby.CodecProof
import Aloof.Ruby.SlipProof

namespace Aloof.Agreement

open Framework C

section Checksum

variable (checksum : List UInt8 → UInt16)

theorem pack_checksum (crc : UInt16) : Ruby.pack 2 crc.toNat = Crc.ccitt16Bytes crc := by
  have hhigh : UInt8.ofNat (crc.toNat / 256) = (crc >>> 8).toUInt8 := by
    apply UInt8.toNat_inj.mp
    rw [UInt8.toNat_ofNat', UInt16.toNat_toUInt8, UInt16.toNat_shiftRight]
    change _ = crc.toNat >>> 8 % 2^8
    rw [Nat.shiftRight_eq_div_pow]
  have hlow : UInt8.ofNat (crc.toNat / 1) = crc.toUInt8 := by
    apply UInt8.toNat_inj.mp
    rw [UInt8.toNat_ofNat', UInt16.toNat_toUInt8, Nat.div_one]
  rw [Ruby.pack_natCast, Crc.ccitt16Bytes, ← hhigh, ← hlow]
  rfl

/-- A message with its checksum passes the check and loses the checksum. -/
theorem received_protect (hchecksum : ∀ bs, checksum bs = Crc.ccitt16Block bs) {m : List UInt8}
    (hm : m ≠ []) :
    Ruby.Slip.received checksum .slipCrc16 (Ruby.Slip.protect checksum .slipCrc16 m) = some m := by
  have hpos := List.length_pos_iff.mpr hm
  have hprotect : Ruby.Slip.protect checksum .slipCrc16 m =
      m ++ Crc.ccitt16Bytes (Crc.ccitt16Block m) := by
    rw [Ruby.Slip.protect, hchecksum, pack_checksum]
  have hlength : (m ++ Crc.ccitt16Bytes (Crc.ccitt16Block m)).length = m.length + 2 :=
    List.length_append
  rw [hprotect, Ruby.Slip.received, hchecksum, Crc.block_residue, if_pos rfl, if_pos (by omega),
    if_pos (by omega), hlength, Nat.add_sub_cancel, List.take_left]

/-- Messages come out of a checksummed line as they went in. -/
theorem checksummed_line (hchecksum : ∀ bs, checksum bs = Crc.ccitt16Block bs)
    (messages : List (List UInt8)) (hmessages : ∀ m ∈ messages, m ≠ []) :
    (Ruby.Slip.read checksum .slipCrc16 .fresh
      (Ruby.Slip.txAll checksum .slipCrc16 messages)).2 = messages := by
  have hempty : Ruby.Slip.received checksum .slipCrc16 [] = none := by
    rw [Ruby.Slip.received, hchecksum]
    rfl
  rw [(Ruby.Slip.read_frames checksum .slipCrc16 .fresh _).2, Ruby.Slip.txAll_eq]
  exact Ruby.Slip.receiver.run_wraps hempty _ fun m hm =>
    received_protect checksum hchecksum (hmessages m hm)

/-- The second message is an ESCAPE. -/
theorem checksummed_line_marks :
    (Ruby.Slip.read Crc.ccitt16Block .slipCrc16 .fresh
      (Ruby.Slip.txAll Crc.ccitt16Block .slipCrc16 [[1, 2, 3], [219]])).2 = [[1, 2, 3], [219]] :=
  checksummed_line Crc.ccitt16Block (fun _ => rfl) [[1, 2, 3], [219]] (by decide)

end Checksum

section Receivers

variable {τ : Type} (arg : SlipInitArg τ) (checksum : List UInt8 → UInt16)

/-- In a frame that ends, an ESCAPE comes before a byte that is no ESCAPE and no stand-in. -/
def Malformed (bs : List UInt8) : Prop :=
  ∃ pre x post, bs = pre ++ Slip.escapeChar :: x :: post ∧
    x ∉ [Slip.escapeChar, Slip.escapeEndChar, Slip.escapeEscapeChar] ∧ Slip.endChar ∈ post

theorem unescape_ne {x : UInt8} (hend : x ≠ Slip.endChar) :
    Slip.unescape x ≠ Ruby.Slip.unescape x ↔
      x ≠ Slip.escapeEndChar ∧ x ≠ Slip.escapeEscapeChar := by
  unfold Slip.unescape Ruby.Slip.unescape
  by_cases hesc : x = Slip.escapeEscapeChar
  · rw [if_pos hesc, if_pos (show x = Ruby.Slip.escapeEscapeChar from hesc)]
    exact iff_of_false (fun h => h rfl) fun h => h.2 hesc
  rw [if_neg hesc, if_neg (show ¬ x = Ruby.Slip.escapeEscapeChar from hesc)]
  by_cases hstand : x = Slip.escapeEndChar
  · rw [if_pos (show x = Ruby.Slip.escapeEndChar from hstand)]
    exact iff_of_false (fun h => h rfl) fun h => h.1 hstand
  · rw [if_neg (show ¬ x = Ruby.Slip.escapeEndChar from hstand)]
    exact iff_of_true (Ne.symm hend) ⟨hstand, hesc⟩

theorem malformed_iff {bs : List UInt8}
    (hdangling : ¬ [Slip.escapeChar, Slip.endChar] <:+: bs) :
    Malformed bs ↔ Slip.receiver.Disputed Ruby.Slip.receiver bs := by
  apply exists₃_congr
  intro pre x post
  apply and_congr_right
  intro heq
  subst heq
  have hend : x ≠ Slip.endChar := by
    intro heq
    subst heq
    exact hdangling ⟨pre, post, by simp⟩
  change _ ↔ x ≠ Slip.escapeChar ∧ Slip.unescape x ≠ Ruby.Slip.unescape x ∧ Slip.endChar ∈ post
  rw [unescape_ne hend, ← and_assoc]
  simp only [List.mem_cons, List.not_mem_nil, or_false, not_or]

theorem kept_eq {max : Nat} {f : List UInt8} (h : f.length ≤ max) :
    Slip.kept max f = Receiver.nonempty f := by
  rw [Slip.kept, List.take_of_length_le h]
  rfl

theorem received_eq (f : List UInt8) :
    Ruby.Slip.received checksum .slip f = Receiver.nonempty f := by
  rw [Ruby.Slip.received, Receiver.nonempty]
  cases f <;> rfl

/-- The C decoder takes every byte behind an ESCAPE that it does not know for an END, the Ruby
reader takes it for itself. -/
theorem receivers_agree (bs : List UInt8)
    (hdangling : ¬ [Slip.escapeChar, Slip.endChar] <:+: bs) (hmax : bs.length ≤ arg.max.toNat) :
    ((Slip.init arg).decodeAll bs).2 = (Ruby.Slip.read checksum .slip .fresh bs).2 ↔
      ¬ Malformed bs := by
  have hc := ((Slip.init arg).decodeAll_represents (Slip.init_represents arg) bs).2
  have hruby := (Ruby.Slip.read_frames checksum .slip .fresh bs).2
  have hkept : (Slip.receiver.frames .start bs).filterMap (Slip.kept arg.max.toNat) =
      (Slip.receiver.frames .start bs).filterMap Receiver.nonempty := by
    apply List.filterMap_congr
    intro f hf
    have hlength := Slip.receiver.frames_le .start bs f hf
    simp only [Partial.start, List.length_nil] at hlength
    exact kept_eq (by omega)
  have hreceived : Ruby.Slip.received checksum .slip = Receiver.nonempty :=
    funext (received_eq checksum)
  obtain ⟨hlengths, hframes⟩ := Slip.receiver.frames_eq_iff Ruby.Slip.receiver .start .start rfl
    rfl hdangling
  rw [hc, hruby, hreceived, malformed_iff hdangling]
  change (Slip.receiver.frames .start bs).filterMap (Slip.kept arg.max.toNat) =
    (Ruby.Slip.receiver.frames .start bs).filterMap Receiver.nonempty ↔ _
  rw [hkept, Receiver.filterMap_nonempty_inj hlengths, hframes]
  exact and_iff_right fun _ => rfl

def sixteenBytes : SlipInitArg Unit where
  buf := List.replicate 16 0
  max := 16
  state := ()
  putFn := ⟨fun _ _ => (true, ()), fun _ => ⟨fun _ => ⟨_, fun _ h => by cases h⟩⟩⟩
  size_eq := rfl

/-- A frame with an END in it. -/
theorem receivers_agree_stuffed :
    ((Slip.init sixteenBytes).decodeAll [1, 219, 220, 192]).2 =
      (Ruby.Slip.read (fun _ => 0) .slip .fresh [1, 219, 220, 192]).2 := by
  apply (receivers_agree sixteenBytes (fun _ => 0) [1, 219, 220, 192] (by decide)
    (by decide)).mpr
  rw [malformed_iff (by decide), Receiver.disputed_cons _ _ (by decide),
    show (219 : UInt8) = slipMarks.esc from rfl, Receiver.disputed_esc,
    Receiver.disputed_cons _ _ (by decide), Receiver.disputed_cons _ _ (by decide)]
  rintro (⟨-, h, -⟩ | h)
  · exact h rfl
  · exact Receiver.not_disputed_nil _ _ h

/-- A frame with a byte behind an ESCAPE that no sender puts there. -/
theorem receivers_differ :
    ((Slip.init sixteenBytes).decodeAll [219, 1, 192]).2 = [[192]] ∧
    (Ruby.Slip.read (fun _ => 0) .slip .fresh [219, 1, 192]).2 = [[1]] ∧
    ((Slip.init sixteenBytes).decodeAll [219, 1, 192]).2 ≠
      (Ruby.Slip.read (fun _ => 0) .slip .fresh [219, 1, 192]).2 ∧
    ¬ [Slip.escapeChar, Slip.endChar] <:+: [219, 1, 192] := by
  decide

end Receivers

end Aloof.Agreement
