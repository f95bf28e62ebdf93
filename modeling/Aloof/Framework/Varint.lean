import Aloof.Framework.Decoder
import Aloof.Framework.Octets

namespace Aloof.Framework.Varint

open Decoder

def short (n : Nat) : List UInt8 := octets 1 n

theorem short_eq (n : Nat) : short n = [UInt8.ofNat n] := by
  simp [short, octets]

/-- The number of the octets comes first, with the top bit set. -/
def long (k n : Nat) : List UInt8 := UInt8.ofNat (128 + k) :: octets k n

/-- The shortest form of a number below 2^32. -/
def encode (n : Nat) : List UInt8 :=
  if n < 0x80 then short n
  else if n < 0x100 then long 1 n
  else if n < 0x10000 then long 2 n
  else if n < 0x1000000 then long 3 n
  else long 4 n

/-- A reader of such numbers, into any type of numbers. -/
structure Reads {ε α : Type} (d : Decoder ε UInt8 α) (ofNat : Nat → α) : Prop where
  short : ∀ n < 128, Decodes d (short n) (ofNat n)
  long : ∀ k n, 0 < k → k ≤ 4 → Decodes d (long k n) (ofNat (n % 256^k))

variable {ε α : Type} {d : Decoder ε UInt8 α} {ofNat : Nat → α}

theorem Reads.long_of_lt (h : Reads d ofNat) {k n : Nat} (hk : 0 < k) (hk4 : k ≤ 4)
    (hn : n < 256^k) : Decodes d (Varint.long k n) (ofNat n) := by
  have hlong := h.long k n hk hk4
  rwa [Nat.mod_eq_of_lt hn] at hlong

theorem Reads.encode (h : Reads d ofNat) {n : Nat} (hn : n < 2^32) :
    Decodes d (encode n) (ofNat n) := by
  unfold Varint.encode
  split_ifs with h1 h2 h3 h4
  · exact h.short n h1
  · exact h.long_of_lt Nat.one_pos (by decide) h2
  · exact h.long_of_lt Nat.two_pos (by decide) h3
  · exact h.long_of_lt (by decide) (by decide) h4
  · exact h.long_of_lt (by decide) (by decide) hn

/-- Of a number that is too large its last four octets are read. -/
theorem Reads.encode_mod (h : Reads d ofNat) (hmod : ∀ n, ofNat (n % 2^32) = ofNat n) (n : Nat) :
    Decodes d (Varint.encode n) (ofNat n) := by
  rcases Nat.lt_or_ge n (2^32) with hlt | hge
  · exact h.encode hlt
  · have hfour : Varint.encode n = Varint.long 4 n := by
      unfold Varint.encode
      split_ifs <;> first | omega | rfl
    rw [hfour, ← hmod]
    exact h.long 4 n (by decide) (by decide)

/-- How many octets a number in two's complement has behind its announcement. -/
def widthSigned (n : Int) : Nat :=
  if -64 ≤ n ∧ n < 64 then 0
  else if -128 ≤ n ∧ n < 128 then 1
  else if -32768 ≤ n ∧ n < 32768 then 2
  else if -8388608 ≤ n ∧ n < 8388608 then 3
  else 4

/-- The shortest form of a number in two's complement; the short one has seven bits. -/
def encodeSigned (n : Int) : List UInt8 :=
  if widthSigned n = 0 then short (n % 128).toNat
  else long (widthSigned n) (n % 2^32).toNat

theorem length_encodeSigned (n : Int) : (encodeSigned n).length = widthSigned n + 1 := by
  unfold encodeSigned
  split_ifs with h
  · rw [h, short, length_octets]
  · rw [long, List.length_cons, length_octets]

theorem widthSigned_le (n : Int) : widthSigned n ≤ 4 := by
  unfold widthSigned
  split_ifs <;> omega

theorem widthSigned_eq_zero {n : Int} : widthSigned n = 0 ↔ -64 ≤ n ∧ n < 64 := by
  unfold widthSigned
  split_ifs <;> simp_all

/-- A number in two's complement of k octets needs no more than them. -/
theorem widthSigned_le_of_range {k : Nat} {n : Int} (hk : 0 < k) (hlow : -(256^k : Nat) ≤ n * 2)
    (hhigh : n * 2 < (256^k : Nat)) : widthSigned n ≤ k := by
  rcases Nat.lt_or_ge 4 k with hlarge | hsmall
  · exact Nat.le_trans (widthSigned_le n) (Nat.le_of_lt hlarge)
  obtain rfl | rfl | rfl | rfl : k = 1 ∨ k = 2 ∨ k = 3 ∨ k = 4 := by omega
  all_goals
    unfold widthSigned
    split_ifs <;> omega

theorem range_of_widthSigned {n : Int} (hlow : -2^31 ≤ n) (hhigh : n < 2^31)
    (h : widthSigned n ≠ 0) :
    -(256^widthSigned n : Nat) ≤ n * 2 ∧ n * 2 < (256^widthSigned n : Nat) := by
  unfold widthSigned at h ⊢
  split_ifs at h ⊢ <;> omega

theorem bmod_word {k : Nat} (hk : k ≤ 4) (n : Int) :
    ((n % 2^32).toNat : Int).bmod (256^k) = n.bmod (256^k) := by
  have hdvd : 256^k ∣ 256^4 := Nat.pow_dvd_pow 256 hk
  have hnonneg : 0 ≤ n % 2^32 := Int.emod_nonneg n (by decide)
  rw [Int.toNat_of_nonneg hnonneg]
  calc (n % 2^32).bmod (256^k)
    _ = ((n % (256^4 : Nat)).bmod (256^4)).bmod (256^k) := (Int.bmod_bmod_of_dvd hdvd).symm
    _ = n.bmod (256^k) := by rw [Int.emod_bmod, Int.bmod_bmod_of_dvd hdvd]

/-- The octets behind the announcement are the number. -/
theorem ofOctetsSigned_word {n : Int} (hlow : -2^31 ≤ n) (hhigh : n < 2^31)
    (h : widthSigned n ≠ 0) :
    ofOctetsSigned (octets (widthSigned n) (n % 2^32).toNat) = n := by
  have hrange := range_of_widthSigned hlow hhigh h
  rw [ofOctetsSigned_octets, bmod_word (widthSigned_le n)]
  exact Int.bmod_eq_of_le_mul_two hrange.1 hrange.2

end Aloof.Framework.Varint
