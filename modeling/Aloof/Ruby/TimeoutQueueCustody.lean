import Mathlib.Data.List.Nodup
import Mathlib.Data.List.Range
import Aloof.Ruby.TimeoutQueueProof

namespace Aloof.Ruby.TimeoutQueue

open Framework

namespace Store

variable {α : Type} {q q' : Store α} {max : Option Int}

/-- Each object that was accepted is in one place, once, and the queue has its limit. -/
structure Sound (max : Option Int) (q : Store α) : Prop where
  limit : q.max = max
  numbered : q.accepted.map Item.ticket = List.range q.accepted.length
  placed : q.accepted.Perm (q.returned ++ q.removed ++ q.queue)
  bounded : ∀ m : Int, max = some m → 0 ≤ m → q.queue.length ≤ m

namespace Sound

theorem start : Sound max (new max : Store α) := by
  refine ⟨rfl, rfl, .nil, fun m _ hm => ?_⟩
  simpa [new] using hm

/-- One object more, at any place of the queue. -/
theorem insert {object : α} (h : q.Sound max) (hroom : q.full = false) (hmax : q'.max = q.max)
    (haccepted : q'.accepted = q.accepted ++ [q.label object])
    (hreturned : q'.returned = q.returned) (hremoved : q'.removed = q.removed)
    (hqueue : q'.queue.Perm (q.label object :: q.queue)) : q'.Sound max := by
  refine ⟨hmax.trans h.limit, ?_, ?_, fun m hm hpos => ?_⟩
  · simp [haccepted, h.numbered, List.range_succ, label]
  · rw [haccepted, hreturned, hremoved]
    have hback : (q.returned ++ q.removed ++ q'.queue).Perm
        (q.label object :: (q.returned ++ q.removed ++ q.queue)) :=
      (hqueue.append_left _).trans List.perm_middle
    exact (List.perm_append_singleton _ _).trans ((h.placed.cons _).trans hback.symm)
  · have hle := h.bounded m hm hpos
    have hne : (q.queue.length : Int) ≠ m := by
      simpa [full, h.limit, hm] using hroom
    have hlength := hqueue.length_eq
    rw [List.length_cons] at hlength
    omega

/-- Objects go from the queue to another place. -/
theorem move (h : q.Sound max) (hmax : q'.max = q.max) (haccepted : q'.accepted = q.accepted)
    (hplaces : (q.returned ++ q.removed ++ q.queue).Perm (q'.returned ++ q'.removed ++ q'.queue))
    (hlength : q'.queue.length ≤ q.queue.length) : q'.Sound max := by
  refine ⟨hmax.trans h.limit, ?_, ?_, fun m hm hpos => ?_⟩
  · rw [haccepted]
    exact h.numbered
  · rw [haccepted]
    exact h.placed.trans hplaces
  · have hle := h.bounded m hm hpos
    omega

theorem delete [BEq α] (h : q.Sound max) (object : α) : (q.delete object).Sound max := by
  refine h.move rfl rfl ?_ (List.length_filter_le _ _)
  have hsplit := List.filter_append_perm (fun item : Item α => item.object == object) q.queue
  simp only [Store.delete, List.append_assoc]
  exact (hsplit.symm.append_left _).append_left _

theorem clear (h : q.Sound max) : q.clear.Sound max := by
  refine h.move rfl rfl ?_ (Nat.zero_le _)
  simp [Store.clear, List.append_assoc]

theorem shift {item : Item α} {rest : List (Item α)} (h : q.Sound max)
    (hqueue : q.queue = item :: rest) :
    Sound max { q with queue := rest, returned := q.returned ++ [item] } := by
  refine h.move rfl rfl ?_ (by simp [hqueue])
  simp only [hqueue, List.append_assoc, List.singleton_append]
  exact List.perm_middle.append_left _

theorem nodup (h : q.Sound max) : q.accepted.Nodup := by
  refine .of_map Item.ticket ?_
  rw [h.numbered]
  exact List.nodup_range

/-- What is in the queue was accepted, and is nowhere else. -/
theorem queued (h : q.Sound max) {item : Item α} (hitem : item ∈ q.queue) :
    item ∈ q.accepted ∧ item ∉ q.returned ∧ item ∉ q.removed := by
  have hdistinct := h.placed.nodup_iff.mp h.nodup
  have hout : item ∉ q.returned ++ q.removed := by
    intro hin
    exact List.disjoint_of_nodup_append hdistinct hin hitem
  exact ⟨h.placed.mem_iff.mpr (List.mem_append_right _ hitem),
    fun hin => hout (List.mem_append_left _ hin), fun hin => hout (List.mem_append_right _ hin)⟩

/-- What was accepted is in one of the places. -/
theorem place (h : q.Sound max) {item : Item α} (hitem : item ∈ q.accepted) :
    item ∈ q.returned ∨ item ∈ q.removed ∨ item ∈ q.queue := by
  have hin := h.placed.mem_iff.mp hitem
  simpa [or_assoc] using hin

end Sound

end Store

/-- Any action but unshift, delete and clear. -/
def Action.InOrder {τ α : Type} : Action τ α → Prop
  | .unshift _ _ _ | .delete _ _ | .clear _ => False
  | _ => True

/-- The sections of pop. -/
def Action.Pops {τ α : Type} : Action τ α → Prop
  | .pop _ _ _ _ | .resume _ _ => True
  | _ => False

variable {τ α : Type} [DecidableEq τ]

theorem store_leave (t : τ) (s : State τ α) : (leave t s).store = s.store := rfl

section Steps

variable [BEq α] {s s' : State τ α} {a : Action τ α} {o : Outcome α} {max : Option Int}

theorem sound_step (h : s.store.Sound max) (hstep : Step s a o s') : s'.store.Sound max := by
  cases hstep with
  | refused ha hclosed => exact h
  | dropped ha hfull => exact h
  | inserted ha hopened hroom received hsignal =>
    cases ha with
    | push t object woken =>
      exact h.insert hroom rfl rfl rfl rfl (List.perm_append_singleton _ _)
    | unshift t object woken => exact h.insert hroom rfl rfl rfl rfl (.refl _)
  | delete t object => exact h.delete object
  | clear t => exact h.clear
  | close t hopened => exact h.move rfl rfl (.refl _) (Nat.le_refl _)
  | closeAgain t hclosed => exact h
  | waits timed ha hempty hopened => exact ha.store ▸ h
  | popped item rest ha hqueue => exact h.shift hqueue
  | ended ha hempty hclosed => simpa only [store_leave, ha.store] using h
  | failed ha hempty hopened => simpa only [store_leave, ha.store] using h
  | wake t listed received hwakes => exact h

theorem sound (h : (timeoutQueue max).Reachable s) : s.store.Sound max := by
  have hinv : (timeoutQueue max).Invariant fun s : State τ α => s.store.Sound max := by
    refine ⟨.start, fun s a s' hs hstep => ?_⟩
    obtain ⟨o, hcases⟩ := step_cases hstep
    exact sound_step hs hcases
  exact hinv.reachable h

/-- A closed queue stays closed and accepts nothing. -/
theorem closed_step (hclosed : s.store.closed = true) (hstep : Step s a o s') :
    s'.store.closed = true ∧ s'.store.accepted = s.store.accepted := by
  cases hstep with
  | inserted ha hopened hroom received hsignal => simp [hclosed] at hopened
  | waits timed ha hempty hopened => simp [hclosed] at hopened
  | close t hopened => simp [hclosed] at hopened
  | ended ha hempty hclosed => simp [store_leave, ha.store, hclosed]
  | failed ha hempty hopened => simp [hclosed] at hopened
  | _ => exact ⟨hclosed, rfl⟩

theorem closed_path {ok : State τ α → Action τ α → Prop} (hclosed : s.store.closed = true)
    (hpath : (timeoutQueue max).Path ok s s') :
    s'.store.closed = true ∧ s'.store.accepted = s.store.accepted := by
  induction hpath with
  | nil => exact ⟨hclosed, rfl⟩
  | snoc run meets last ih =>
    obtain ⟨o, hstep⟩ := step_cases last
    obtain ⟨hstill, hsame⟩ := closed_step ih.1 hstep
    exact ⟨hstill, hsame.trans ih.2⟩

theorem inOrder_step (ha : a.InOrder) (h : s.store.accepted = s.store.returned ++ s.store.queue)
    (hstep : Step s a o s') : s'.store.accepted = s'.store.returned ++ s'.store.queue := by
  cases hstep with
  | inserted hinserts hopened hroom received hsignal =>
    cases hinserts with
    | push t object woken => simp [Store.push, h]
    | unshift t object woken => exact ha.elim
  | delete t object => exact ha.elim
  | clear t => exact ha.elim
  | popped item rest henters hqueue => simp [h, hqueue]
  | waits timed henters hempty hopened => simpa [henters.store] using h
  | ended henters hempty hclosed => simpa [store_leave, henters.store] using h
  | failed henters hempty hopened => simpa [store_leave, henters.store] using h
  | _ => exact h

theorem inOrder_path (hpath : (timeoutQueue max).Path (fun _ a => a.InOrder) (new max) s) :
    s.store.accepted = s.store.returned ++ s.store.queue := by
  induction hpath with
  | nil => rfl
  | snoc run meets last ih =>
    obtain ⟨o, hstep⟩ := step_cases last
    exact inOrder_step meets ih hstep

theorem popped_step {item : Item α} (hstep : Step s a (.popped item) s') :
    item ∈ s.store.queue ∧ s'.store.returned = s.store.returned ++ [item] := by
  cases hstep with
  | popped item rest henters hqueue => exact ⟨by simp [hqueue], rfl⟩

theorem ended_step (ha : a.Pops) (hstep : Step s a .closedQueueError s') :
    s.store.queue = [] := by
  cases hstep with
  | refused hinserts hclosed =>
    cases hinserts with
    | push t object woken => exact ha.elim
    | unshift t object woken => exact ha.elim
  | ended henters hempty hclosed => exact hempty

theorem accepted_step {item : Item α} (hstep : Step s a (.accepted item) s') :
    s.store.closed = false := by
  cases hstep with
  | inserted hinserts hopened hroom received hsignal => exact hopened

end Steps

/-- An accepted object is in one place until pop returns it, once, or it is deleted or cleared; with
push and pop alone the order stays; a limit holds; and a closed queue only gives out what it has,
before it is an error. -/
theorem custody [BEq α] {max : Option Int} {s : State τ α} (h : (timeoutQueue max).Reachable s) :
    s.store.accepted.Nodup ∧
    s.store.accepted.Perm (s.store.returned ++ s.store.removed ++ s.store.queue) ∧
    (∀ a item s', act s a = some (.popped item, s') →
      item ∈ s.store.accepted ∧ item ∉ s.store.returned ∧ item ∉ s.store.removed ∧
        s'.store.returned = s.store.returned ++ [item]) ∧
    (∀ item ∈ s.store.accepted, item ∉ s.store.returned → item ∉ s.store.removed →
      item ∈ s.store.queue) ∧
    ((timeoutQueue max).Path (fun _ a => a.InOrder) (new max) s →
      s.store.accepted = s.store.returned ++ s.store.queue) ∧
    (∀ m : Int, max = some m → 0 ≤ m → s.store.queue.length ≤ m) ∧
    (s.store.closed = true → ∀ s', (timeoutQueue max).Path (fun _ _ => True) s s' →
      s'.store.accepted = s.store.accepted ∧
      (∀ a item s'', act s' a ≠ some (.accepted item, s'')) ∧
      ∀ a s'', a.Pops → act s' a = some (.closedQueueError, s'') →
        ∀ item ∈ s.store.queue, item ∈ s'.store.returned ∨ item ∈ s'.store.removed) := by
  have hsound := sound h
  refine ⟨hsound.nodup, hsound.placed, ?popped, ?kept, inOrder_path, hsound.bounded, ?closed⟩
  case popped =>
    intro a item s' hact
    obtain ⟨hitem, hreturned⟩ := popped_step (act_cases hact)
    obtain ⟨haccepted, hfresh, hstill⟩ := hsound.queued hitem
    exact ⟨haccepted, hfresh, hstill, hreturned⟩
  case kept =>
    intro item hitem hreturned hremoved
    obtain hin | hin | hin := hsound.place hitem
    · exact (hreturned hin).elim
    · exact (hremoved hin).elim
    · exact hin
  case closed =>
    intro hclosed s' hpath
    obtain ⟨hstill, hsame⟩ := closed_path hclosed hpath
    refine ⟨hsame, fun a item s'' hact => ?_, fun a s'' hpops hact item hitem => ?_⟩
    · simp [accepted_step (act_cases hact)] at hstill
    · have hempty := ended_step hpops (act_cases hact)
      have hitem' : item ∈ s'.store.accepted := hsame ▸ (hsound.queued hitem).1
      simpa [hempty] using (sound (hpath.reachable h)).place hitem'

/-- A pop waits for the first of two objects, and the second is deleted. -/
theorem custody_two : ∃ s : State Nat Nat, (timeoutQueue (some 2)).Reachable s ∧
    s.store.returned = [⟨0, 7⟩] ∧ s.store.removed = [⟨1, 8⟩] ∧
    s.store.accepted.Perm (s.store.returned ++ s.store.removed ++ s.store.queue) := by
  have hr : (timeoutQueue (some 2)).Reachable (_ : State Nat Nat) :=
    .cons (a := .pop 1 false true false) trivial rfl <|
    .cons (a := .push 0 7 (some 1)) trivial rfl <|
    .cons (a := .push 0 8 none) trivial rfl <|
    .cons (a := .resume 1 false) trivial rfl <|
    .cons (a := .delete 0 8) trivial rfl .nil
  exact ⟨_, hr, rfl, rfl, (custody hr).2.1⟩

/-- A limit below zero is no limit. -/
theorem custody_negative : ∃ s : State Nat Nat, (timeoutQueue (some (-1))).Reachable s ∧
    s.store.max = some (-1) ∧ s.store.queue = [⟨0, 7⟩] ∧ ¬ (s.store.queue.length : Int) ≤ -1 := by
  have hr : (timeoutQueue (some (-1))).Reachable (_ : State Nat Nat) :=
    .cons (a := .push 0 7 none) trivial rfl .nil
  exact ⟨_, hr, rfl, rfl, by decide⟩

end Aloof.Ruby.TimeoutQueue
