import Mathlib.Data.List.Nodup
import Mathlib.Data.List.Perm.Subperm
import Mathlib.Logic.Function.Basic

namespace Aloof.Framework

/-- A condition variable: the threads that a signal can go to, and those that sleep. -/
structure Condition (τ : Type) where
  waiters : List τ
  asleep : τ → Bool

namespace Condition

section Operations

variable {τ : Type} [DecidableEq τ]

def new : Condition τ := ⟨[], fun _ => false⟩

/-- The thread lets the lock go and sleeps. -/
def wait (t : τ) (c : Condition τ) : Condition τ :=
  ⟨c.waiters ++ [t], Function.update c.asleep t true⟩

/-- One of the waiters is woken, whichever the condition variable chooses, if there is one. -/
def signal (chosen : Option τ) (c : Condition τ) : Option (Condition τ) :=
  match chosen with
  | some t =>
    if t ∈ c.waiters then some ⟨c.waiters.erase t, Function.update c.asleep t false⟩ else none
  | none => if c.waiters.isEmpty then some c else none

/-- A sleeper wakes up at its timeout or without a cause. Until it resumes, a signal can still go to
it if it stays listed. -/
def wake (t : τ) (listed : Bool) (c : Condition τ) : Option (Condition τ) :=
  if c.asleep t then
    some ⟨if listed then c.waiters else c.waiters.erase t, Function.update c.asleep t false⟩
  else none

/-- Some threads are woken by their names. -/
def wakeAll (ts : List τ) (c : Condition τ) : Condition τ :=
  { c with asleep := fun t => c.asleep t && !ts.contains t }

/-- A thread that is awake has the lock again: its wait ends. -/
def resume (t : τ) (c : Condition τ) : Option (Condition τ) :=
  if c.asleep t then none else some { c with waiters := c.waiters.erase t }

theorem asleep_update {c : Condition τ} {t u : τ}
    (h : Function.update c.asleep u false t = true) : t ≠ u ∧ c.asleep t = true := by
  by_cases heq : t = u
  · simp [heq] at h
  · exact ⟨heq, by simpa [heq] using h⟩

theorem asleep_resume {c c' : Condition τ} {t : τ} (h : c.resume t = some c') :
    c'.asleep = c.asleep := by
  simp only [resume, Option.ite_none_left_eq_some, Option.some.injEq] at h
  obtain ⟨-, rfl⟩ := h
  rfl

theorem asleep_of_wake {c c' : Condition τ} {t u : τ} {listed : Bool}
    (h : c.wake t listed = some c') (hu : c'.asleep u = true) : c.asleep u = true := by
  simp only [wake, Option.ite_none_right_eq_some, Option.some.injEq] at h
  obtain ⟨-, rfl⟩ := h
  exact (asleep_update hu).2

end Operations

/-- Of the threads that are inside, enough for all items are awake, or all. -/
structure Covers {τ : Type} (c : Condition τ) (inside : List τ) (items : Nat) : Prop where
  distinct : inside.Nodup
  once : c.waiters.Nodup
  within : c.waiters ⊆ inside
  listed : ∀ t, c.asleep t = true → t ∈ c.waiters
  enough : c.waiters = [] ∨ items + c.waiters.length ≤ inside.length

namespace Covers

variable {τ : Type} {c c' : Condition τ} {ts : List τ} {t : τ} {n m : Nat}

theorem start : Covers (new : Condition τ) [] 0 :=
  ⟨.nil, .nil, List.nil_subset [], by simp [new], .inl rfl⟩

theorem fewer (h : c.Covers ts n) (hm : m ≤ n) : c.Covers ts m := by
  refine ⟨h.distinct, h.once, h.within, h.listed, ?_⟩
  obtain hnone | henough := h.enough
  · exact .inl hnone
  · exact .inr (by omega)

/-- Without items the last condition follows from the others. -/
theorem of_no_items (hd : ts.Nodup) (ho : c.waiters.Nodup) (hw : c.waiters ⊆ ts)
    (hl : ∀ t, c.asleep t = true → t ∈ c.waiters) : c.Covers ts 0 := by
  have hle := (ho.subperm hw).length_le
  exact ⟨hd, ho, hw, hl, .inr (by omega)⟩

/-- The threads that are awake are as many as the items, or all. -/
theorem awake (h : c.Covers ts n) : min n ts.length ≤ (ts.filter (!c.asleep ·)).length := by
  have hsplit := ts.length_eq_length_filter_add c.asleep
  have hasleep : ts.filter c.asleep ⊆ c.waiters := by
    intro t ht
    exact h.listed t (List.mem_filter.mp ht).2
  have hle := ((h.distinct.filter _).subperm hasleep).length_le
  obtain hnone | henough := h.enough
  · rw [hnone, List.length_nil] at hle
    omega
  · omega

/-- A thread that is not inside comes in. -/
theorem enter (h : c.Covers ts n) (ht : t ∉ ts) : c.Covers (ts ++ [t]) n := by
  have hd : (ts ++ [t]).Nodup := by
    rw [← List.concat_eq_append]
    exact h.distinct.concat ht
  refine ⟨hd, h.once, fun u hu => List.mem_append_left [t] (h.within hu), h.listed, ?_⟩
  obtain hnone | henough := h.enough
  · exact .inl hnone
  · exact .inr (by rw [List.length_append]; omega)

section Rules

variable [DecidableEq τ]

/-- A thread is woken and no signal can go to it any more. -/
theorem unlist {u : τ} (h : c.Covers ts n) :
    (Condition.mk (c.waiters.erase u) (Function.update c.asleep u false)).Covers ts n := by
  refine ⟨h.distinct, h.once.erase u, fun v hv => h.within (List.mem_of_mem_erase hv), ?_, ?_⟩
  · intro v hv
    obtain ⟨hne, hasleep⟩ := asleep_update hv
    exact (List.mem_erase_of_ne hne).mpr (h.listed v hasleep)
  · have hle := c.waiters.erase_sublist (a := u) |>.length_le
    obtain hnone | henough := h.enough
    · exact .inl (by simp [hnone])
    · exact .inr (by dsimp only; omega)

/-- An item comes with a signal. -/
theorem signal {chosen : Option τ} (h : c.Covers ts n) (hs : c.signal chosen = some c') :
    c'.Covers ts (n + 1) := by
  cases chosen with
  | none =>
    simp only [Condition.signal, Option.ite_none_right_eq_some, List.isEmpty_iff,
      Option.some.injEq] at hs
    obtain ⟨hnone, rfl⟩ := hs
    exact ⟨h.distinct, h.once, h.within, h.listed, .inl hnone⟩
  | some u =>
    simp only [Condition.signal, Option.ite_none_right_eq_some, Option.some.injEq] at hs
    obtain ⟨hu, rfl⟩ := hs
    have hc := h.unlist (u := u)
    refine ⟨hc.distinct, hc.once, hc.within, hc.listed, ?_⟩
    have hpos := List.length_pos_of_mem hu
    have hlength := List.length_erase_of_mem hu
    obtain hnone | henough := h.enough
    · simp [hnone] at hu
    · exact .inr (by dsimp only; omega)

theorem wake {listed : Bool} (h : c.Covers ts n) (hw : c.wake t listed = some c') :
    c'.Covers ts n := by
  simp only [Condition.wake, Option.ite_none_right_eq_some, Option.some.injEq] at hw
  obtain ⟨hasleep, rfl⟩ := hw
  cases listed with
  | false => exact h.unlist
  | true =>
    refine ⟨h.distinct, h.once, h.within, fun u hu => ?_, h.enough⟩
    exact h.listed u (asleep_update hu).2

theorem wakeAll (h : c.Covers ts n) (us : List τ) : (c.wakeAll us).Covers ts n := by
  refine ⟨h.distinct, h.once, h.within, fun u hu => h.listed u ?_, h.enough⟩
  simp only [Condition.wakeAll, Bool.and_eq_true] at hu
  exact hu.1

theorem resume (h : c.Covers ts n) (hr : c.resume t = some c') :
    c'.Covers ts n ∧ t ∉ c'.waiters := by
  simp only [Condition.resume, Option.ite_none_left_eq_some, Option.some.injEq] at hr
  obtain ⟨hawake, rfl⟩ := hr
  have hc := h.unlist (u := t)
  refine ⟨⟨hc.distinct, hc.once, hc.within, fun u hu => hc.listed u ?_, hc.enough⟩,
    h.once.not_mem_erase⟩
  have hne : u ≠ t := fun heq => hawake (heq ▸ hu)
  simpa [hne] using hu

/-- A thread waits while there is no item. -/
theorem wait (h : c.Covers ts 0) (ht : t ∈ ts) (hout : t ∉ c.waiters) :
    (c.wait t).Covers ts 0 := by
  refine of_no_items h.distinct ?_ ?_ ?_
  · rw [Condition.wait, ← List.concat_eq_append]
    exact h.once.concat hout
  · exact List.append_subset.mpr ⟨h.within, by simpa using ht⟩
  · intro u hu
    simp only [Condition.wait, List.mem_append, List.mem_singleton]
    by_cases heq : u = t
    · exact .inr heq
    · exact .inl (h.listed u (by simpa [Condition.wait, heq] using hu))

/-- A thread that does not wait goes away, with an item if there is one. -/
theorem leave (h : c.Covers ts n) (ht : t ∈ ts) (hout : t ∉ c.waiters) :
    c.Covers (ts.filter (· != t)) (n - 1) := by
  have hwithin : c.waiters ⊆ ts.filter (· != t) := by
    intro u hu
    have hne : u ≠ t := fun heq => hout (heq ▸ hu)
    exact List.mem_filter.mpr ⟨h.within hu, bne_iff_ne.mpr hne⟩
  cases n with
  | zero => exact of_no_items (h.distinct.filter _) h.once hwithin h.listed
  | succ k =>
    refine ⟨h.distinct.filter _, h.once, hwithin, h.listed, ?_⟩
    have hpos := List.length_pos_of_mem ht
    have hlength := List.length_erase_of_mem ht
    rw [h.distinct.erase_eq_filter] at hlength
    obtain hnone | henough := h.enough
    · exact .inl hnone
    · exact .inr (by omega)

end Rules

end Covers

end Condition

end Aloof.Framework
