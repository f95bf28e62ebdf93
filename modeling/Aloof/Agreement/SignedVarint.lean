import Aloof.C.SignedRoundTrip
import Aloof.Ruby.SignedVarint
import Aloof.Agreement.Varint

namespace Aloof.Agreement

open Framework

theorem head_encodeSigned {n : Int} {first : UInt8} {tl : List UInt8}
    (h : Varint.encodeSigned n = first :: tl) : first ≠ 0x80 := by
  unfold Varint.encodeSigned at h
  split_ifs at h with hwidth
  · rw [Varint.short_eq, List.cons.injEq] at h
    have hfirst := C.Grammar.short_first (n := (n % 128).toNat) (by omega)
    rw [h.1] at hfirst
    exact fun heq => UInt8.lt_irrefl _ (heq ▸ hfirst.2)
  · rw [Varint.long, List.cons.injEq] at h
    have hfirst := C.Grammar.long_first (Nat.pos_of_ne_zero hwidth) (Varint.widthSigned_le n)
    rw [h.1] at hfirst
    intro heq
    rw [heq] at hfirst
    exact hwidth hfirst.2.2.symm

/-- The Ruby reader reads what the C reader reads. -/
theorem getInt_encodeSigned {n : Int} (hlow : -2^31 ≤ n) (hhigh : n < 2^31) :
    Ruby.InputCodec.getInt (Varint.encodeSigned n) = .ok (n, []) := by
  have hdecode := (C.Grammar.int_decodes 0 hlow hhigh).whole
  cases h : Varint.encodeSigned n with
  | nil =>
    have hlen := Varint.length_encodeSigned n
    rw [h] at hlen
    cases hlen
  | cons first tl =>
    have halike := int_alike 0 (head_encodeSigned h) tl
    rw [← h, hdecode] at halike
    rw [← h]
    cases hget : Ruby.InputCodec.getInt (Varint.encodeSigned n) with
    | ok r =>
      rw [hget] at halike
      exact congrArg Except.ok halike.symm
    | error e =>
      rw [hget] at halike
      cases halike

/-- put_int appends the bytes that aloof_oer_putInt appends, and get_int gets the number back from
them. -/
def PutIntAgrees (v : Int) : Prop :=
  (C.Oer.putInt (Int32.ofInt v)).Appends (Ruby.OutputCodec.putInt v) ∧
  Ruby.InputCodec.getInt (Ruby.OutputCodec.putInt v) = .ok (v, [])

theorem putInt_agrees (v : Int) (hlow : -2^31 ≤ v) (hhigh : v < 2^31) :
    PutIntAgrees v ↔ Ruby.OutputCodec.Mirrored v := by
  have happends := C.Oer.putInt_appends (Int32.ofInt v)
  rw [Int32.toInt_ofInt_of_le hlow hhigh] at happends
  rw [← Ruby.OutputCodec.putInt_eq_iff hlow hhigh]
  constructor
  · intro h
    have hruby : (Ruby.OutputCodec.putInt v).length ≤ 5 := by
      rw [Ruby.OutputCodec.length_putInt]
      exact Ruby.OutputCodec.sizeofInt_le v
    have hc : (Varint.encodeSigned v).length ≤ 5 := by
      rw [Varint.length_encodeSigned]
      exact Nat.succ_le_succ (Varint.widthSigned_le v)
    exact h.1.unique happends (s := C.Oer.blank) ⟨rfl, hruby⟩ ⟨rfl, hc⟩
  · intro h
    unfold PutIntAgrees
    rw [h]
    exact ⟨happends, getInt_encodeSigned hlow hhigh⟩

theorem putInt_agrees_mirrored : PutIntAgrees 0x12343412 :=
  (putInt_agrees 0x12343412 (by decide) (by decide)).mpr (.inr ⟨by decide, by decide⟩)

/-- 81 00 is put for 1000, which is a form of 0. -/
theorem putInt_agrees_clipped : (-2^31 : Int) ≤ 1000 ∧ (1000 : Int) < 2^31 ∧
    ¬ PutIntAgrees 1000 := by
  refine ⟨by decide, by decide, ?_⟩
  intro h
  exact absurd h.2 (by decide)

end Aloof.Agreement
