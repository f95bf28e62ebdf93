import Mathlib.Data.List.Basic

namespace Aloof.Framework

/-- Cells, a place among them, and the sides from which they can be used. Places and distances are
unbounded integers. -/
@[ext] structure Tape (α : Type) where
  cells : List α
  readable : Bool
  writable : Bool
  pos : Int

namespace Tape

variable {α : Type}

inductive Call (α : Type) where
  | write (xs : List α)
  | read (size : Nat)
  | seekSet (offset : Nat)
  | seekCur (offset : Int)

/-- Where the call is to lead. -/
def target (t : Tape α) : Call α → Int
  | .write xs => t.pos + xs.length
  | .read size => t.pos + size
  | .seekSet offset => offset
  | .seekCur offset => t.pos + offset

/-- The side that the call needs is there. -/
def hasSide (t : Tape α) : Call α → Bool
  | .write _ => t.writable
  | .read _ => t.readable
  | .seekSet _ | .seekCur _ => true

/-- The cells from one place up to another. -/
def between (t : Tape α) (i j : Int) : List α := (t.cells.take j.toNat).drop i.toNat

/-- The cells that a read returns. -/
def output (t : Tape α) (c : Call α) : List α :=
  match c with
  | .read _ => t.between t.pos (t.target c)
  | _ => []

/-- The cells after the call, those between the old and the new place replaced by a write. -/
def stored (t : Tape α) (c : Call α) : List α :=
  match c with
  | .write xs => t.between 0 t.pos ++ xs ++ t.between (t.target c) t.cells.length
  | _ => t.cells

def Allowed (t : Tape α) (c : Call α) : Prop :=
  t.hasSide c = true ∧ 0 ≤ t.target c ∧ t.target c ≤ t.cells.length

instance (t : Tape α) (c : Call α) : Decidable (t.Allowed c) :=
  inferInstanceAs (Decidable (_ ∧ _ ∧ _))

/-- A call that is not allowed fails and changes nothing. -/
def call (t : Tape α) (c : Call α) : Option (List α) × Tape α :=
  if t.Allowed c then (some (t.output c), { t with cells := t.stored c, pos := t.target c })
  else (none, t)

theorem call_of_allowed {t : Tape α} {c : Call α} (h : t.Allowed c) :
    t.call c = (some (t.output c), { t with cells := t.stored c, pos := t.target c }) := if_pos h

theorem call_of_not_allowed {t : Tape α} {c : Call α} (h : ¬ t.Allowed c) :
    t.call c = (none, t) := if_neg h

def Inside (t : Tape α) : Prop := 0 ≤ t.pos ∧ t.pos ≤ t.cells.length

theorem length_stored {t : Tape α} {c : Call α} (h : t.Inside) (hc : t.Allowed c) :
    (t.stored c).length = t.cells.length := by
  obtain ⟨hlow, hhigh⟩ := h
  obtain ⟨-, hfrom, hto⟩ := hc
  cases c with
  | write xs =>
    simp only [target] at hfrom hto
    simp only [stored, target, between, List.length_append, List.length_drop, List.length_take]
    omega
  | read size => rfl
  | seekSet offset => rfl
  | seekCur offset => rfl

/-- No call leads outside or makes room. -/
theorem call_inside {t : Tape α} (h : t.Inside) (c : Call α) :
    (t.call c).2.Inside ∧ (t.call c).2.cells.length = t.cells.length := by
  by_cases hc : t.Allowed c
  · have hlen := length_stored h hc
    rw [call_of_allowed hc]
    refine ⟨⟨hc.2.1, ?_⟩, hlen⟩
    rw [hlen]
    exact hc.2.2
  · rw [call_of_not_allowed hc]
    exact ⟨h, rfl⟩

end Tape

end Aloof.Framework
