import Mathlib.Data.Set.Card
import Aloof.Ruby.TimeoutQueueProof

namespace Aloof.Ruby.TimeoutQueue

open Framework

/-- The threads in the loop of pop. -/
def State.inside {τ α : Type} (s : State τ α) : Set τ := {t | s.looping t ≠ none}

/-- The threads in the loop of pop that were woken and did not resume yet. -/
def State.woken {τ α : Type} (s : State τ α) : Set τ := {t ∈ s.inside | s.received.asleep t = false}

variable {τ α : Type}

/-- Between two sections. -/
structure Inv (s : State τ α) : Prop where
  covers : s.received.Covers s.waiting s.store.queue.length
  listed : ∀ t, t ∈ s.waiting ↔ t ∈ s.inside
  notified : s.store.closed = true → ∀ t, s.received.asleep t = false

/-- Within a section of pop, where one thread has the mutex and does not wait. -/
structure Head (s : State τ α) (t : τ) : Prop where
  covers : s.received.Covers s.waiting s.store.queue.length
  here : t ∈ s.waiting
  unlisted : t ∉ s.received.waiters
  others : ∀ u, u ≠ t → (u ∈ s.waiting ↔ u ∈ s.inside)
  notified : s.store.closed = true → ∀ u, s.received.asleep u = false

/-- An action on the objects alone that adds none. -/
theorem Inv.fewer {s : State τ α} (h : Inv s) {q : Store α}
    (hlength : q.queue.length ≤ s.store.queue.length) (hclosed : q.closed = s.store.closed) :
    Inv { s with store := q } := by
  refine ⟨h.covers.fewer hlength, h.listed, ?_⟩
  dsimp only
  rw [hclosed]
  exact h.notified

variable [DecidableEq τ]

section Steps

variable {s s' entered : State τ α} {a : Action τ α} {o : Outcome α} {t : τ}

theorem Inv.enters (h : Inv s) (ha : Enters s a t entered) : Head entered t := by
  cases ha with
  | pop t nonBlock timed expired hfree =>
    have hout : t ∉ s.waiting := fun ht => (h.listed t).mp ht hfree
    refine ⟨h.covers.enter hout, by simp, fun ht => hout (h.covers.within ht), ?_, h.notified⟩
    intro u hne
    simpa [State.inside, hne] using h.listed u
  | resume t expired timed hlooping received hresumes =>
    obtain ⟨hcovers, hout⟩ := h.covers.resume hresumes
    have ht : t ∈ s.waiting := (h.listed t).mpr (by simp [State.inside, hlooping])
    refine ⟨hcovers, ht, hout, fun u _ => h.listed u, ?_⟩
    rw [Condition.asleep_resume hresumes]
    exact h.notified

/-- The thread waits. -/
theorem Head.wait (h : Head s t) (timed : Bool) (hempty : s.store.queue = [])
    (hopened : s.store.closed = false) :
    Inv { s with
      received := s.received.wait t
      looping := Function.update s.looping t (some timed) } := by
  have hcovers := h.covers
  rw [hempty, List.length_nil] at hcovers
  refine ⟨?_, fun u => ?_, by simp [hopened]⟩
  · dsimp only
    rw [hempty]
    exact hcovers.wait h.here h.unlisted
  · by_cases hne : u = t
    · simp [hne, h.here, State.inside]
    · simpa [State.inside, hne] using h.others u hne

/-- The thread goes, with an object if there is one. -/
theorem Head.leave (h : Head s t) {q : Store α}
    (hlength : q.queue.length ≤ s.store.queue.length - 1)
    (hclosed : q.closed = s.store.closed) : Inv { leave t s with store := q } := by
  refine ⟨(h.covers.leave h.here h.unlisted).fewer hlength, fun u => ?_, ?_⟩
  · by_cases hne : u = t
    · simp [hne, TimeoutQueue.leave, State.inside]
    · simpa [TimeoutQueue.leave, State.inside, hne] using h.others u hne
  · dsimp only
    rw [hclosed]
    exact h.notified

variable [BEq α]

theorem Inv.step (h : Inv s) (hstep : Step s a o s') : Inv s' := by
  cases hstep with
  | refused ha hclosed => exact h
  | dropped ha hfull => exact h
  | inserted ha hopened hroom received hsignal =>
    refine ⟨?_, h.listed, by simp [ha.closed, hopened]⟩
    dsimp only
    rw [ha.length]
    exact h.covers.signal hsignal
  | delete t object => exact h.fewer (List.length_filter_le _ _) rfl
  | clear t => exact h.fewer (Nat.zero_le _) rfl
  | close t hopened =>
    refine ⟨h.covers.wakeAll s.waiting, h.listed, fun _ u => ?_⟩
    simp only [Condition.wakeAll, Bool.and_eq_false_iff, Bool.not_eq_false', List.contains_iff_mem]
    by_cases hasleep : s.received.asleep u = true
    · exact .inr (h.covers.within (h.covers.listed u hasleep))
    · exact .inl (by simpa using hasleep)
  | closeAgain t hclosed => exact h
  | waits timed ha hempty hopened =>
    exact (h.enters ha).wait timed (ha.store ▸ hempty) (ha.store ▸ hopened)
  | popped item rest ha hqueue =>
    exact (h.enters ha).leave (by simp [ha.store, hqueue]) (by rw [ha.store])
  | ended ha hempty hclosed => exact (h.enters ha).leave (by simp [ha.store, hempty]) rfl
  | failed ha hempty hopened => exact (h.enters ha).leave (by simp [ha.store, hempty]) rfl
  | wake t listed received hwakes =>
    refine ⟨h.covers.wake hwakes, h.listed, fun hclosed u => ?_⟩
    by_contra hasleep
    have h' := Condition.asleep_of_wake hwakes (Bool.not_eq_false _ ▸ hasleep)
    simp [h.notified hclosed u] at h'

theorem invariant {max : Option Int} :
    (timeoutQueue max : System (State τ α) (Action τ α)).Invariant Inv where
  init := by
    refine ⟨.start, ?_, ?_⟩
    · simp [timeoutQueue, new, State.inside]
    · simp [timeoutQueue, new, Store.new]
  step := by
    intro s a s' h hstep
    obtain ⟨o, hcases⟩ := step_cases hstep
    exact h.step hcases

end Steps

section Counts

variable {s : State τ α}

theorem Inv.inside_eq (h : Inv s) : s.inside = ↑s.waiting.toFinset := by
  ext t
  simpa using (h.listed t).symm

theorem Inv.woken_eq (h : Inv s) :
    s.woken = ↑(s.waiting.filter (!s.received.asleep ·)).toFinset := by
  ext t
  simp [State.woken, h.listed t]

theorem Inv.ncard_inside (h : Inv s) : s.inside.ncard = s.waiting.length := by
  rw [h.inside_eq, Set.ncard_coe_finset, List.toFinset_card_of_nodup h.covers.distinct]

theorem Inv.ncard_woken (h : Inv s) :
    s.woken.ncard = (s.waiting.filter (!s.received.asleep ·)).length := by
  rw [h.woken_eq, Set.ncard_coe_finset,
    List.toFinset_card_of_nodup (h.covers.distinct.filter _)]

end Counts

/-- The poppers that were woken are as many as the objects, or all, and nobody sleeps in a closed
queue; so no object lies in the queue while a popper sleeps and none was woken. -/
theorem no_lost_wakeup [BEq α] {max : Option Int} {s : State τ α}
    (h : (timeoutQueue max).Reachable s) :
    s.inside.Finite ∧ min s.store.queue.length s.inside.ncard ≤ s.woken.ncard ∧
      (∀ t, s.received.asleep t = true → t ∈ s.inside) ∧
      (s.store.closed = true → ∀ t, s.received.asleep t = false) ∧
      ∀ t, s.received.asleep t = true → s.store.queue ≠ [] → s.woken.Nonempty := by
  have hinv : Inv s := invariant.reachable h
  have hinside : ∀ t, s.received.asleep t = true → t ∈ s.inside := by
    intro t ht
    exact (hinv.listed t).mp (hinv.covers.within (hinv.covers.listed t ht))
  have hfinite : s.inside.Finite := by
    rw [hinv.inside_eq]
    exact s.waiting.toFinset.finite_toSet
  have hmin : min s.store.queue.length s.inside.ncard ≤ s.woken.ncard := by
    rw [hinv.ncard_inside, hinv.ncard_woken]
    exact hinv.covers.awake
  refine ⟨hfinite, hmin, hinside, hinv.notified, fun t ht hqueue => ?_⟩
  have hqueued := List.length_pos_iff.mpr hqueue
  have hsleeper := (Set.ncard_pos hfinite).mpr ⟨t, hinside t ht⟩
  exact Set.nonempty_of_ncard_ne_zero (by omega)

/-- Two threads wait, one of them with a timeout, and the other is woken for an object. -/
theorem no_lost_wakeup_two : ∃ s : State Nat Nat, (timeoutQueue none).Reachable s ∧
    s.store.queue.length = 1 ∧ s.received.asleep 2 = true ∧ s.woken.Nonempty := by
  have hr : (timeoutQueue none).Reachable (_ : State Nat Nat) :=
    .cons (a := .pop 1 false false false) trivial rfl <|
    .cons (a := .pop 2 false true false) trivial rfl <|
    .cons (a := .push 0 7 (some 1)) trivial rfl .nil
  exact ⟨_, hr, rfl, rfl, (no_lost_wakeup hr).2.2.2.2 2 rfl (List.cons_ne_nil _ _)⟩

end Aloof.Ruby.TimeoutQueue
