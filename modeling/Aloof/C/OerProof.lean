import Aloof.C.Oer
import Aloof.C.StreamRules
import Aloof.Framework.Varint

namespace Aloof.C

open Framework

-- The wire forms that the readers of aloof_oer.c accept, as decoders of byte lists.
namespace Grammar

def octet : Decoder Unit UInt8 UInt8 := Decoder.next ()

def number (k : Nat) : Decoder Unit UInt8 Nat := do return ofOctets (← Decoder.chunk () k)

def u16 : Decoder Unit UInt8 UInt16 := do return UInt16.ofNat (← number 2)

def u32 : Decoder Unit UInt8 UInt32 := do return UInt32.ofNat (← number 4)

def u64 : Decoder Unit UInt8 UInt64 := do return UInt64.ofNat (← number 8)

/-- A long form announces 0 to 4 octets; with none of them the number is 0. -/
def uint : Decoder Unit UInt8 UInt32 := do
  let first ← octet
  if first < 0x80 then pure first.toUInt32
  else if first &&& 0x7f ≤ 4 then do return UInt32.ofNat (← number (first &&& 0x7f).toNat)
  else Decoder.fail ()

def bool : Decoder Unit UInt8 Bool := do
  let value ← octet
  if value = 0 ∨ value = 1 then pure (value = 1) else Decoder.fail ()

end Grammar

theorem Grammar.octet_cons (b : UInt8) (rest : List UInt8) :
    octet (b :: rest) = .ok (b, rest) := rfl

theorem Grammar.number_decodes {k : Nat} {bs : List UInt8} (h : bs.length = k) :
    Decoder.Decodes (number k) bs (ofOctets bs) := by
  subst h
  exact (Decoder.Decodes.chunk () bs).map ofOctets

theorem Grammar.octet_decodes (v : UInt8) : Decoder.Decodes octet (octets 1 v.toNat) v := by
  have hv : octets 1 v.toNat = [v] := by simp [octets]
  rw [hv]
  exact Decoder.Decodes.next () v

theorem Grammar.u16_decodes (v : UInt16) : Decoder.Decodes u16 (octets 2 v.toNat) v := by
  have h := (number_decodes (length_octets 2 v.toNat)).map UInt16.ofNat
  rwa [ofOctets_octets_of_lt v.toNat_lt, UInt16.ofNat_toNat] at h

theorem Grammar.u32_decodes (v : UInt32) : Decoder.Decodes u32 (octets 4 v.toNat) v := by
  have h := (number_decodes (length_octets 4 v.toNat)).map UInt32.ofNat
  rwa [ofOctets_octets_of_lt v.toNat_lt, UInt32.ofNat_toNat] at h

theorem Grammar.u64_decodes (v : UInt64) : Decoder.Decodes u64 (octets 8 v.toNat) v := by
  have h := (number_decodes (length_octets 8 v.toNat)).map UInt64.ofNat
  rwa [ofOctets_octets_of_lt v.toNat_lt, UInt64.ofNat_toNat] at h

theorem Grammar.bool_decodes (v : Bool) : Decoder.Decodes bool [if v then 1 else 0] v := by
  cases v <;> exact fun _ => rfl

theorem Grammar.short_first {n : Nat} (hn : n < 128) :
    (UInt8.ofNat n).toNat = n ∧ UInt8.ofNat n < 0x80 := by
  have hfirst : (UInt8.ofNat n).toNat = n :=
    UInt8.toNat_ofNat_of_lt' (Nat.lt_trans hn (by decide))
  refine ⟨hfirst, ?_⟩
  rw [UInt8.lt_iff_toNat_lt, hfirst]
  exact hn

theorem Grammar.long_first {k : Nat} (hk : 0 < k) (hk4 : k ≤ 4) :
    ¬ UInt8.ofNat (128 + k) < 0x80 ∧ UInt8.ofNat (128 + k) &&& 0x7f ≤ 4 ∧
      (UInt8.ofNat (128 + k) &&& 0x7f).toNat = k := by
  obtain rfl | rfl | rfl | rfl : k = 1 ∨ k = 2 ∨ k = 3 ∨ k = 4 := by omega
  all_goals decide

theorem Grammar.uint_reads : Varint.Reads uint UInt32.ofNat where
  short n hn rest := by
    obtain ⟨hfirst, hlt⟩ := short_first hn
    have hvalue : (UInt8.ofNat n).toUInt32 = UInt32.ofNat n := by
      apply UInt32.toNat_inj.mp
      rw [UInt8.toNat_toUInt32, hfirst, UInt32.toNat_ofNat_of_lt' (Nat.lt_trans hn (by decide))]
    rw [Varint.short_eq, uint, List.singleton_append, Decoder.bind_ok (octet_cons _ rest),
      if_pos hlt, hvalue]
    rfl
  long k n hk hk4 rest := by
    have hfirst := long_first hk hk4
    have hnumber := (number_decodes (length_octets k n)).map UInt32.ofNat rest
    rw [ofOctets_octets] at hnumber
    rw [Varint.long, List.cons_append, uint, Decoder.bind_ok (octet_cons _ _), if_neg hfirst.1,
      if_pos hfirst.2.1, hfirst.2.2]
    exact hnumber

theorem Grammar.uint_encode (n : Nat) : Decoder.Decodes uint (Varint.encode n) (UInt32.ofNat n) :=
  uint_reads.encode_mod (fun _ => UInt32.ofNat_mod_size) n

theorem Grammar.octet_stable : Decoder.Stable octet := .next ()

theorem Grammar.number_stable (k : Nat) : Decoder.Stable (number k) :=
  (Decoder.Stable.chunk () k).map ofOctets

theorem Grammar.uint_stable : Decoder.Stable uint := by
  apply octet_stable.bind
  intro first
  split_ifs
  · exact .pure _
  · exact (number_stable _).map UInt32.ofNat
  · exact .fail ()

theorem Grammar.number_takes {k n : Nat} {s r : List UInt8} (h : number k s = .ok (n, r)) :
    r.length + k = s.length := by
  obtain ⟨bs, t, hchunk, hrun⟩ := Decoder.bind_eq_ok h
  cases hrun
  unfold Decoder.chunk at hchunk
  split_ifs at hchunk with hk
  cases hchunk
  rw [List.length_drop]
  omega

theorem Grammar.u32_takes {v : UInt32} {s r : List UInt8} (h : u32 s = .ok (v, r)) :
    r.length + 4 = s.length := by
  obtain ⟨n, t, hnumber, hrun⟩ := Decoder.bind_eq_ok h
  cases hrun
  exact number_takes hnumber

/-- At least the first octet. -/
theorem Grammar.uint_takes {v : UInt32} {s r : List UInt8} (h : uint s = .ok (v, r)) :
    r.length < s.length := by
  obtain ⟨first, t, hfirst, hrun⟩ := Decoder.bind_eq_ok h
  cases s with
  | nil => cases hfirst
  | cons b tl =>
    cases hfirst
    rw [List.length_cons]
    split_ifs at hrun
    · cases hrun
      exact Nat.lt_succ_self _
    · obtain ⟨n, t, hnumber, hrun⟩ := Decoder.bind_eq_ok hrun
      cases hrun
      have := number_takes hnumber
      omega
    · cases hrun

theorem Grammar.bool_stable : Decoder.Stable bool := by
  apply octet_stable.bind
  intro value
  split_ifs
  · exact .pure _
  · exact .fail ()

namespace Oer

private theorem shift_or (n w : Nat) (b : UInt8) (hw : 8 ≤ w) :
    (n % 2^w) <<< 8 % 2^w ||| b.toNat = (n * 256 + b.toNat) % 2^w := by
  have hb : b.toNat < 2^8 := b.toNat_lt
  obtain ⟨m, rfl⟩ := Nat.exists_eq_add_of_le hw
  have hlow : (n % 2^(8 + m)) <<< 8 % 2^(8 + m) = (n % 2^m) <<< 8 := by
    rw [Nat.shiftLeft_eq, Nat.shiftLeft_eq, Nat.pow_add, Nat.mul_comm (2^8) (2^m),
      Nat.mul_mod_mul_right, Nat.mod_mul_right_mod]
  have hmod : (n * 256 + b.toNat) % 2^8 = b.toNat := by omega
  have hdiv : (n * 256 + b.toNat) / 2^8 = n := by omega
  rw [hlow, ← Nat.shiftLeft_add_eq_or_of_lt hb, Nat.shiftLeft_eq, Nat.pow_add,
    Nat.mod_mul (x := n * 256 + b.toNat), hmod, hdiv, Nat.mul_comm, Nat.add_comm]

theorem shift_or_u16 (n : Nat) (b : UInt8) :
    (UInt16.ofNat n <<< 8) ||| b.toUInt16 = UInt16.ofNat (n * 256 + b.toNat) := by
  apply UInt16.toNat_inj.mp
  simpa using shift_or n 16 b (by decide)

theorem shift_or_u32 (n : Nat) (b : UInt8) :
    (UInt32.ofNat n <<< 8) ||| b.toUInt32 = UInt32.ofNat (n * 256 + b.toNat) := by
  apply UInt32.toNat_inj.mp
  simpa using shift_or n 32 b (by decide)

theorem shift_or_u64 (n : Nat) (b : UInt8) :
    (UInt64.ofNat n <<< 8) ||| b.toUInt64 = UInt64.ofNat (n * 256 + b.toNat) := by
  apply UInt64.toNat_inj.mp
  simpa using shift_or n 64 b (by decide)

theorem getU8_of_cons {s : Stream} {b : UInt8} {tl : List UInt8} (h : s.rest = b :: tl) :
    s.readable ∧ getU8 s = (some b, s.skip 1) := by
  have hr : s.readable := Stream.readable_of_rest (by simp [h])
  refine ⟨hr, ?_⟩
  rw [getU8, Stream.read_of_le hr (by simp [h])]
  simp [h]

theorem getU8_of_nil {s : Stream} (h : s.rest = []) : getU8 s = (none, s) := by
  rw [getU8, Stream.read_of_lt (by simp [h])]

theorem getU8_implements : getU8.Implements Grammar.octet := by
  intro s
  cases h : s.rest with
  | nil => exact Getter.ImplementsAt.of_error (getU8_of_nil h) (by rw [h]; rfl)
  | cons b tl =>
    exact Getter.ImplementsAt.of_ok (by simp [h]) (getU8_of_cons h).2 (by rw [h]; rfl)

/-- A read of a fixed number of octets followed by the shift-and-or loop. -/
theorem word_implements {α : Type} (size : UInt32) (hsize : 0 < size.toNat) (ofNat : Nat → α)
    (step : α → UInt8 → α) (h : ∀ n b, step (ofNat n) b = ofNat (n * 256 + b.toNat)) :
    Getter.Implements (do return (← Getter.read size).foldl step (ofNat 0))
      (do return ofNat (← Grammar.number size.toNat)) := by
  simp only [foldl_step ofNat step h, Grammar.number, bind_assoc, pure_bind]
  exact (Getter.Implements.read () hsize).map fun buf => ofNat (ofOctets buf)

theorem getU16_implements : getU16.Implements Grammar.u16 :=
  word_implements 2 (by decide) UInt16.ofNat
    (fun out b => (out <<< 8) ||| b.toUInt16) shift_or_u16

theorem getU32_implements : getU32.Implements Grammar.u32 :=
  word_implements 4 (by decide) UInt32.ofNat
    (fun out b => (out <<< 8) ||| b.toUInt32) shift_or_u32

theorem getU64_implements : getU64.Implements Grammar.u64 :=
  word_implements 8 (by decide) UInt64.ofNat
    (fun out b => (out <<< 8) ||| b.toUInt64) shift_or_u64

theorem getBool_implements : getBool.Implements Grammar.bool := by
  apply getU8_implements.bind
  intro value
  by_cases h0 : value = 0
  · simpa [h0] using Getter.Implements.pure false
  · by_cases h1 : value = 1
    · simpa [h1] using Getter.Implements.pure true
    · simpa [h0, h1] using Getter.Implements.fail ()

theorem getUint_implements (scratch : UInt8) : (getUint scratch).Implements Grammar.uint := by
  intro s
  apply (getU8_implements s).bind
  intro first n hget
  have hr : (s.skip n).readable = true := by
    cases h : s.rest with
    | nil => simp [getU8_of_nil h] at hget
    | cons b tl => exact (getU8_of_cons h).1
  simp only [Bool.false_and, Bool.false_eq_true, if_false]
  split_ifs
  · simpa using Getter.Implements.pure first.toUInt32 _
  · rw [← UInt8.toNat_toUInt32]
    simp only [Grammar.number, bind_assoc, pure_bind]
    apply (Getter.ImplementsAt.read () (Or.inl hr)).bind
    intro buf m _
    rw [show (0 : UInt32) = UInt32.ofNat 0 from rfl, foldl_step UInt32.ofNat
      (fun out b => (out <<< 8) ||| b.toUInt32) shift_or_u32]
    exact Getter.Implements.pure _ _
  · exact Getter.Implements.fail () _

theorem putU8_appends (v : UInt8) : (putU8 v).Appends [v] := Putter.Appends.write [v]

theorem octets_u16 (v : UInt16) : octets 2 v.toNat = [(v >>> 8).toUInt8, v.toUInt8] := by
  simp only [octets, List.cons.injEq, ← UInt8.toNat_inj]
  simp [Nat.shiftRight_eq_div_pow]

theorem octets_u32 (v : UInt32) : octets 4 v.toNat =
    [(v >>> 24).toUInt8, (v >>> 16).toUInt8, (v >>> 8).toUInt8, v.toUInt8] := by
  simp only [octets, List.cons.injEq, ← UInt8.toNat_inj]
  simp [Nat.shiftRight_eq_div_pow]

theorem octets_u64 (v : UInt64) : octets 8 v.toNat =
    [(v >>> 56).toUInt8, (v >>> 48).toUInt8, (v >>> 40).toUInt8, (v >>> 32).toUInt8,
      (v >>> 24).toUInt8, (v >>> 16).toUInt8, (v >>> 8).toUInt8, v.toUInt8] := by
  simp only [octets, List.cons.injEq, ← UInt8.toNat_inj]
  simp [Nat.shiftRight_eq_div_pow]

theorem putU16_appends (v : UInt16) : (putU16 v).Appends (octets 2 v.toNat) := by
  rw [octets_u16]
  exact Putter.Appends.write _

theorem putU32_appends (v : UInt32) : (putU32 v).Appends (octets 4 v.toNat) := by
  rw [octets_u32]
  exact Putter.Appends.write _

theorem putU64_appends (v : UInt64) : (putU64 v).Appends (octets 8 v.toNat) := by
  rw [octets_u64]
  exact Putter.Appends.write _

/-- What putUint writes. The two length classes that close with ≤ also take in the first number
of the next class, whose top octet is then dropped. -/
def uintOctets (v : UInt32) : List UInt8 :=
  if v < 0x80 then octets 1 v.toNat
  else if v < 0x100 then 0x81 :: octets 1 v.toNat
  else if v ≤ 0x10000 then 0x82 :: octets 2 v.toNat
  else if v ≤ 0x1000000 then 0x83 :: octets 3 v.toNat
  else 0x84 :: octets 4 v.toNat

private theorem low_seven (v : UInt32) (h : v < 0x80) : (v &&& 0x7f).toUInt8 = v.toUInt8 := by
  have hv : v.toNat < 128 := UInt32.lt_iff_toNat_lt.mp h
  apply UInt8.toNat_inj.mp
  rw [UInt32.toNat_toUInt8, UInt32.toNat_toUInt8, UInt32.toNat_and]
  change (v.toNat &&& 2^7 - 1) % 2^8 = _
  rw [Nat.and_two_pow_sub_one_eq_mod]
  omega

theorem putUint_eq (v : UInt32) : putUint v = fun s => s.write (uintOctets v) := by
  have h := octets_u32 v
  simp only [octets, List.cons.injEq, and_true] at h
  obtain ⟨h3, h2, h1, h0⟩ := h
  funext s
  simp only [putUint, encodeVarint, Bool.false_eq_true, if_false, sizeofUint, uintOctets, octets,
    h3, h2, h1, h0]
  by_cases c1 : v < 0x80
  · simp only [c1, if_true, low_seven v c1]
  by_cases c2 : v < 0x100
  · simp only [c1, c2, if_true, if_false]
    rfl
  by_cases c3 : v ≤ 0x10000
  · simp only [c1, c2, c3, if_true, if_false]
    rfl
  by_cases c4 : v ≤ 0x1000000
  all_goals
    simp only [c1, c2, c3, c4, if_true, if_false]
    rfl

/-- The two numbers that a length class too short for them takes in. -/
def Clipped (v : UInt32) : Prop := v = 0x10000 ∨ v = 0x1000000

instance (v : UInt32) : Decidable (Clipped v) := inferInstanceAs (Decidable (_ ∨ _))

theorem uintOctets_eq {v : UInt32} (h : ¬ Clipped v) : uintOctets v = Varint.encode v.toNat := by
  have h16 : v.toNat ≠ 0x10000 := fun hv => h (Or.inl (UInt32.toNat_inj.mp hv))
  have h24 : v.toNat ≠ 0x1000000 := fun hv => h (Or.inr (UInt32.toNat_inj.mp hv))
  have h1 : v < 0x80 ↔ v.toNat < 0x80 := UInt32.lt_iff_toNat_lt
  have h2 : v < 0x100 ↔ v.toNat < 0x100 := UInt32.lt_iff_toNat_lt
  have h3 : v ≤ 0x10000 ↔ v.toNat < 0x10000 :=
    UInt32.le_iff_toNat_le.trans ⟨fun hle => Nat.lt_of_le_of_ne hle h16, Nat.le_of_lt⟩
  have h4 : v ≤ 0x1000000 ↔ v.toNat < 0x1000000 :=
    UInt32.le_iff_toNat_le.trans ⟨fun hle => Nat.lt_of_le_of_ne hle h24, Nat.le_of_lt⟩
  simp only [uintOctets, Varint.encode, h1, h2, h3, h4]
  rfl

/-- Any reader of the format gets 0 for a clipped number. -/
theorem uintOctets_decodes {ε α : Type} {d : Decoder ε UInt8 α} {ofNat : Nat → α}
    (h : Varint.Reads d ofNat) (v : UInt32) :
    Decoder.Decodes d (uintOctets v) (ofNat (if Clipped v then 0 else v.toNat)) := by
  by_cases hv : Clipped v
  · rw [if_pos hv]
    rcases hv with rfl | rfl
    · exact h.long 2 0x10000 (by decide) (by decide)
    · exact h.long 3 0x1000000 (by decide) (by decide)
  · rw [if_neg hv, uintOctets_eq hv]
    exact h.encode v.toNat_lt

theorem putUint_appends (v : UInt32) : (putUint v).Appends (uintOctets v) := by
  rw [putUint_eq]
  exact Putter.Appends.write _

theorem putString_appends (b : Bytes) : (putString b).Appends (uintOctets b.size ++ b.data) :=
  (putUint_appends b.size).andThen (Putter.Appends.write b.data)

end Oer

end Aloof.C
