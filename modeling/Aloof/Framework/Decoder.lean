import Mathlib.Data.List.Basic

namespace Aloof.Framework

/-- A decoder takes tokens off the front of its input or raises. -/
abbrev Decoder (ε τ : Type) := StateT (List τ) (Except ε)

namespace Decoder

variable {ε τ α β : Type}

def next (e : ε) : Decoder ε τ τ
  | [] => .error e
  | t :: ts => .ok (t, ts)

def chunk (e : ε) (n : Nat) : Decoder ε τ (List τ) := fun s =>
  if n ≤ s.length then .ok (s.take n, s.drop n) else .error e

def fail (e : ε) : Decoder ε τ α := fun _ => .error e

theorem bind_ok {d : Decoder ε τ α} {f : α → Decoder ε τ β} {s r : List τ} {a : α}
    (h : d s = .ok (a, r)) : (d >>= f) s = f a r := by
  simp only [bind, StateT.bind, h, Except.bind]

theorem bind_error {d : Decoder ε τ α} {f : α → Decoder ε τ β} {s : List τ} {e : ε}
    (h : d s = .error e) : (d >>= f) s = .error e := by
  simp only [bind, StateT.bind, h, Except.bind]

theorem bind_eq_ok {d : Decoder ε τ α} {f : α → Decoder ε τ β} {s r : List τ} {b : β}
    (h : (d >>= f) s = .ok (b, r)) : ∃ a t, d s = .ok (a, t) ∧ f a t = .ok (b, r) := by
  cases hd : d s with
  | error e => simp [bind_error hd] at h
  | ok p => exact ⟨p.1, p.2, rfl, by rwa [bind_ok hd] at h⟩

theorem ite_fail_bind {c : Prop} [Decidable c] {d : Decoder ε τ α} {e : ε}
    (f : α → Decoder ε τ β) :
    (if c then d else fail e) >>= f = if c then d >>= f else fail e := by
  split_ifs <;> rfl

/-- The word w stands for a: it is read as a in front of any further input,
and exactly w is consumed. -/
def Decodes (d : Decoder ε τ α) (w : List τ) (a : α) : Prop :=
  ∀ rest, d (w ++ rest) = .ok (a, rest)

theorem Decodes.next (e : ε) (t : τ) : Decodes (next e) [t] t := fun _ => rfl

theorem Decodes.chunk (e : ε) (w : List τ) : Decodes (chunk e w.length) w w := by
  intro rest
  simp [Decoder.chunk]

theorem Decodes.bind {d : Decoder ε τ α} {f : α → Decoder ε τ β} {u v : List τ} {a : α} {b : β}
    (hd : Decodes d u a) (hf : Decodes (f a) v b) : Decodes (d >>= f) (u ++ v) b := by
  intro rest
  rw [List.append_assoc, bind_ok (hd (v ++ rest))]
  exact hf rest

theorem Decodes.map {d : Decoder ε τ α} {w : List τ} {a : α} (f : α → β)
    (hd : Decodes d w a) : Decodes (do return f (← d)) w (f a) := fun rest => bind_ok (hd rest)

/-- A word that is the whole input leaves nothing. -/
theorem Decodes.whole {d : Decoder ε τ α} {w : List τ} {a : α} (h : Decodes d w a) :
    d w = .ok (a, []) := by
  simpa using h []

/-- What a stable decoder takes from the front does not depend on what comes after. -/
def Stable (d : Decoder ε τ α) : Prop :=
  ∀ s a r, d s = .ok (a, r) → ∀ t, d (s ++ t) = .ok (a, r ++ t)

theorem Stable.pure (a : α) : Stable (pure a : Decoder ε τ α) := by
  intro s b r h t
  cases h
  rfl

theorem Stable.fail (e : ε) : Stable (fail e : Decoder ε τ α) := by
  intro s a r h
  cases h

theorem Stable.next (e : ε) : Stable (next e : Decoder ε τ τ) := by
  intro s a r h t
  cases s with
  | nil => cases h
  | cons b s =>
    cases h
    rfl

theorem Stable.chunk (e : ε) (n : Nat) : Stable (chunk e n : Decoder ε τ (List τ)) := by
  intro s a r h t
  unfold Decoder.chunk at h ⊢
  split_ifs at h with hn
  cases h
  rw [if_pos (by rw [List.length_append]; omega), List.take_append_of_le_length hn,
    List.drop_append_of_le_length hn]

theorem Stable.bind {d : Decoder ε τ α} {f : α → Decoder ε τ β} (hd : Stable d)
    (hf : ∀ a, Stable (f a)) : Stable (d >>= f) := by
  intro s b r h t
  obtain ⟨a, u, ha, hb⟩ := bind_eq_ok h
  rw [bind_ok (hd s a u ha t)]
  exact hf a u b r hb t

theorem Stable.map {d : Decoder ε τ α} (f : α → β) (hd : Stable d) :
    Stable (do return f (← d)) := hd.bind fun a => Stable.pure (f a)

end Decoder

end Aloof.Framework
