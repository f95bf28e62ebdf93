import Aloof.C.SignedVarint
import Aloof.Ruby.CodecProof

namespace Aloof

open Framework

/-- What a getter takes from the front of the unread bytes, and what it leaves. -/
def C.Getter.result {α : Type} (g : C.Getter α) (s : C.Stream) : Except Unit (α × List UInt8) :=
  match g s with
  | (some a, t) => .ok (a, t.rest)
  | (none, _) => .error ()

theorem C.Getter.Implements.result {α : Type} {g : C.Getter α} {d : Decoder Unit UInt8 α}
    (hg : g.Implements d) (s : C.Stream) : g.result s = d s.rest := by
  unfold C.Getter.result
  cases hd : d s.rest with
  | ok r =>
    obtain ⟨a, tl⟩ := r
    obtain ⟨hrun, hrest⟩ := (hg s).after hd
    rw [hrun]
    exact congrArg (fun tl => Except.ok (a, tl)) hrest
  | error e =>
    obtain ⟨n, -, hrun⟩ := (hg s).error hd
    rw [hrun]

namespace Agreement

/-- Both succeed, with the same number and the same bytes left, or both fail. -/
def Alike {α : Type} (c : Except Unit (α × List UInt8)) (r : Except Ruby.Error (α × List UInt8)) :
    Prop :=
  match c, r with
  | .ok a, .ok b => a = b
  | .error _, .error _ => True
  | _, _ => False

/-- The varint decoders of both sides on the same bytes, whatever buffer[1] holds in C. -/
def VarintsAgree (bs : List UInt8) (h : bs.length < 2^32) : Prop := ∀ scratch : UInt8,
  Alike ((do return (← C.Oer.getUint scratch).toNat : C.Getter Nat).result (C.Stream.initRo bs h))
    (Ruby.InputCodec.getUint bs) ∧
  Alike ((do return (← C.Oer.getInt scratch).toInt : C.Getter Int).result (C.Stream.initRo bs h))
    (Ruby.InputCodec.getInt bs)

/-- The order in which a long form is found too short or too long does not matter. -/
theorem long_alike {α : Type} {n : Nat} (v v' : List UInt8 → α) (tl : List UInt8)
    (hv : ∀ bs, bs.length = n → n ≤ 4 → v bs = v' bs) :
    Alike ((if n ≤ 4 then do return v (← Decoder.chunk () n) else Decoder.fail () :
        Decoder Unit UInt8 α) tl)
      (if tl.length < n then .error .eof else if n > 4 then .error .encoding
        else .ok (v' (tl.take n), tl.drop n)) := by
  by_cases hn : n ≤ 4
  · rw [if_pos hn]
    by_cases hlen : n ≤ tl.length
    · have hchunk : Decoder.chunk () n tl = .ok (tl.take n, tl.drop n) := if_pos hlen
      rw [Decoder.bind_ok hchunk, if_neg (by omega), if_neg (by omega),
        ← hv (tl.take n) (List.length_take_of_le hlen) hn]
      rfl
    · have hchunk : Decoder.chunk () n tl = .error () := if_neg hlen
      rw [Decoder.bind_error hchunk, if_pos (by omega)]
      trivial
  · rw [if_neg hn]
    by_cases hlen : tl.length < n
    · rw [if_pos hlen]
      trivial
    · rw [if_neg hlen, if_pos (by omega)]
      trivial

theorem not_long_of_short {first : UInt8} (h : first < 0x80) : ¬ first > 0x80 ∧ first ≠ 0x80 :=
  ⟨UInt8.lt_asymm h, fun heq => UInt8.lt_irrefl _ (heq ▸ h)⟩

/-- Any other first byte that is not short announces at least one octet. -/
theorem long_of_not_short {first : UInt8} (h : ¬ first < 0x80) (hne : first ≠ 0x80) :
    first > 0x80 ∧ 0 < (first &&& 0x7f).toNat := by
  apply forall_octet_lt (P := fun b => ¬ b < 0x80 → b ≠ 0x80 → b > 0x80 ∧ 0 < (b &&& 0x7f).toNat)
    _ first.toNat_lt h hne
  decide +kernel

theorem uint_alike {first : UInt8} (hfirst : first ≠ 0x80) (tl : List UInt8) :
    Alike ((do return (← C.Grammar.uint).toNat : Decoder Unit UInt8 Nat) (first :: tl))
      (Ruby.InputCodec.getUint (first :: tl)) := by
  simp only [C.Grammar.uint, Ruby.InputCodec.getUint, bind_assoc]
  rw [Decoder.bind_ok (C.Grammar.octet_cons first tl),
    Decoder.bind_ok (Ruby.InputCodec.getByte_cons first tl)]
  by_cases hs : first < 0x80
  · rw [if_pos hs, if_neg (not_long_of_short hs).1, if_neg hfirst]
    rfl
  · obtain ⟨hl, -⟩ := long_of_not_short hs hfirst
    rw [if_neg hs, if_pos hl]
    simp only [UInt8.le_iff_toNat_le, Decoder.ite_fail_bind, C.Grammar.number, bind_assoc,
      pure_bind]
    have hv : ∀ bs : List UInt8, bs.length = (first &&& 0x7f).toNat → (first &&& 0x7f).toNat ≤ 4 →
        (UInt32.ofNat (ofOctets bs)).toNat =
          ofOctets ((bs.reverse ++ Ruby.InputCodec.padding1).take 4).reverse := by
      intro bs hbs hn
      have hlt := ofOctets_lt bs
      have hle : 256^bs.length ≤ 256^4 := Nat.pow_le_pow_right (by decide) (by omega)
      have hword : ofOctets bs < UInt32.size := by
        change ofOctets bs < 2^32
        omega
      rw [Ruby.InputCodec.unpack_padded (by omega), UInt32.toNat_ofNat_of_lt' hword]
    have hboth := long_alike _ _ tl hv
    exact hboth

theorem short_int {first : UInt8} (h : first < 0x80) : (first.toNat : Int).bmod 128 =
    if first ≥ 0x40 then (ofOctets (Ruby.pack 1 (first ||| 0x80).toNat) : Int).bmod 256
    else first.toNat := by
  apply forall_octet_lt (P := fun b => (b.toNat : Int).bmod 128 =
    if b ≥ 0x40 then (ofOctets (Ruby.pack 1 (b ||| 0x80).toNat) : Int).bmod 256 else b.toNat)
    _ (UInt8.lt_iff_toNat_lt.mp h)
  decide +kernel

theorem int_alike (scratch : UInt8) {first : UInt8} (hfirst : first ≠ 0x80) (tl : List UInt8) :
    Alike (C.Grammar.int scratch (first :: tl)) (Ruby.InputCodec.getInt (first :: tl)) := by
  simp only [C.Grammar.int, Ruby.InputCodec.getInt]
  rw [Decoder.bind_ok (C.Grammar.octet_cons first tl),
    Decoder.bind_ok (Ruby.InputCodec.getByte_cons first tl)]
  by_cases hs : first < 0x80
  · rw [if_pos hs, if_neg (not_long_of_short hs).1, if_neg hfirst, short_int hs]
    split_ifs <;> rfl
  · obtain ⟨hl, hpos⟩ := long_of_not_short hs hfirst
    rw [if_neg hs, if_pos hl]
    simp only [UInt8.le_iff_toNat_le]
    have hv : ∀ bs : List UInt8, bs.length = (first &&& 0x7f).toNat → (first &&& 0x7f).toNat ≤ 4 →
        ofOctetsSigned (if bs = [] then [signOctet scratch] else bs) =
        (ofOctets ((if bs.reverse.getLastD 0 < 0x80 then bs.reverse ++ Ruby.InputCodec.padding1
          else bs.reverse ++ Ruby.InputCodec.padding2).take 4).reverse : Int).bmod (256^4) := by
      intro bs hbs hn
      cases bs with
      | nil =>
        rw [List.length_nil] at hbs
        omega
      | cons b bs =>
        have hlast : (b :: bs).reverse.getLastD 0 = b := by simp
        rw [if_neg (List.cons_ne_nil b bs), hlast, ← apply_ite,
          Ruby.InputCodec.unpack_extended (by omega)]
    have hboth := long_alike _ _ tl hv
    exact hboth

/-- The C decoders take the one byte 80 for a number of no octets, and the Ruby decoders raise. -/
theorem varints_agree (bs : List UInt8) (h : bs.length < 2^32) :
    VarintsAgree bs h ↔ bs.head? ≠ some 0x80 := by
  have huint (scratch : UInt8) := (((C.Oer.getUint_implements scratch).map UInt32.toNat).result
    (C.Stream.initRo bs h)).trans (congrArg _ (C.Stream.rest_initRo h))
  have hint (scratch : UInt8) := ((C.Oer.getInt_implements scratch).result
    (C.Stream.initRo bs h)).trans (congrArg _ (C.Stream.rest_initRo h))
  unfold VarintsAgree
  simp only [huint, hint]
  cases bs with
  | nil => exact iff_of_true (fun _ => ⟨trivial, trivial⟩) (by simp)
  | cons first tl =>
    rw [List.head?_cons, ne_eq, Option.some.injEq]
    constructor
    · intro hagree heq
      rw [heq] at hagree
      exact (hagree 0).1
    · intro hne scratch
      exact ⟨uint_alike hne tl, int_alike scratch hne tl⟩

theorem varints_agree_long : VarintsAgree [0x84, 0xff, 0xff, 0xff, 0xfe] (by decide) :=
  (varints_agree [0x84, 0xff, 0xff, 0xff, 0xfe] (by decide)).mpr (by decide)

theorem varints_agree_none : ¬ VarintsAgree [0x80] (by decide) := by
  intro h
  have hempty := (h 0).1
  exact hempty

end Agreement

end Aloof
