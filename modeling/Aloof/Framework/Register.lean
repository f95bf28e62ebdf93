import Mathlib.Logic.Function.Basic
import Aloof.Framework.Transition

namespace Aloof.Framework

/-- A request stores a value in one cell or in none, whatever the cells hold; every cell has its own
type of values. -/
structure Registers (κ : Type) (ν : κ → Type) (ι ο : Type) where
  effect : ι → Option (Sigma ν)
  answer : ((k : κ) → ν k) → ι → ο

namespace Registers

variable {κ ι ο : Type} {ν : κ → Type} [DecidableEq κ] (reg : Registers κ ν ι ο)

def store (cells : (k : κ) → ν k) (i : ι) : (k : κ) → ν k :=
  match reg.effect i with
  | some v => Function.update cells v.1 v.2
  | none => cells

/-- The answer of a request comes from the cells that it finds. -/
def call (cells : (k : κ) → ν k) (i : ι) : ο × ((k : κ) → ν k) :=
  (reg.answer cells i, reg.store cells i)

/-- What the request stores in this cell. -/
def stored (k : κ) (i : ι) : Option (ν k) :=
  (reg.effect i).bind fun v => if h : v.1 = k then some (h ▸ v.2) else none

/-- What the last of the requests with something for this cell stores there. -/
def last (k : κ) : List ι → Option (ν k)
  | [] => none
  | i :: is => (last k is).or (reg.stored k i)

/-- The cells behind requests in a row. -/
def after (cells : (k : κ) → ν k) (is : List ι) : (k : κ) → ν k :=
  (answers reg.call cells is).2

variable (cells : (k : κ) → ν k) (k : κ)

theorem stored_of_effect {i : ι} {v : ν k} (h : reg.effect i = some ⟨k, v⟩) :
    reg.stored k i = some v := by
  rw [stored, h, Option.bind_some, dif_pos rfl]

theorem stored_of_ne {i : ι} {v : Sigma ν} (h : reg.effect i = some v) (hne : v.1 ≠ k) :
    reg.stored k i = none := by
  rw [stored, h, Option.bind_some, dif_neg hne]

theorem stored_of_none {i : ι} (h : reg.effect i = none) : reg.stored k i = none := by
  rw [stored, h, Option.bind_none]

/-- A cell changes only by what is stored in it. -/
theorem store_apply (i : ι) : reg.store cells i k = (reg.stored k i).getD (cells k) := by
  unfold store
  rcases h : reg.effect i with _ | ⟨k', v⟩
  · rw [reg.stored_of_none k h]
    rfl
  · by_cases hk : k' = k
    · subst hk
      rw [reg.stored_of_effect k' h]
      exact Function.update_self k' v cells
    · rw [reg.stored_of_ne k h hk]
      exact Function.update_of_ne (Ne.symm hk) v cells

theorem after_append (is js : List ι) :
    reg.after cells (is ++ js) = reg.after (reg.after cells is) js := by
  rw [after, answers_append]
  rfl

/-- A cell holds what was last stored in it. -/
theorem after_apply (is : List ι) :
    reg.after cells is k = (reg.last k is).getD (cells k) := by
  induction is generalizing cells with
  | nil => rfl
  | cons i is ih =>
    change reg.after (reg.store cells i) is k = _
    rw [ih, last, store_apply]
    cases reg.last k is <;> rfl

theorem last_append (is js : List ι) :
    reg.last k (is ++ js) = (reg.last k js).or (reg.last k is) := by
  induction is with
  | nil => simp [last]
  | cons i is ih => rw [List.cons_append, last, ih, last, Option.or_assoc]

/-- Requests with nothing for the cell may be left out. -/
theorem last_of_forall {is : List ι} (h : ∀ i ∈ is, reg.stored k i = none) :
    reg.last k is = none := by
  induction is with
  | nil => rfl
  | cons i is ih =>
    rw [List.forall_mem_cons] at h
    rw [last, ih h.2, h.1]
    rfl

end Registers

end Aloof.Framework
