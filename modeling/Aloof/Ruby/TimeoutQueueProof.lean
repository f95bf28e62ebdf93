import Mathlib.Tactic.SplitIfs
import Aloof.Ruby.TimeoutQueue

namespace Aloof.Ruby.TimeoutQueue

open Framework

/-- The actions that call __push, with the waiter, the object and the block of each. -/
inductive Action.Inserts {τ α : Type} :
    Action τ α → Option τ → α → (Store α → Store α) → Prop where
  | push (t : τ) (object : α) (woken : Option τ) :
    Inserts (.push t object woken) woken object (Store.push object)
  | unshift (t : τ) (object : α) (woken : Option τ) :
    Inserts (.unshift t object woken) woken object (Store.unshift object)

section Inserts

variable {τ α : Type} {a : Action τ α} {woken : Option τ} {object : α} {insert : Store α → Store α}

theorem Action.Inserts.length (h : a.Inserts woken object insert) (q : Store α) :
    (insert q).queue.length = q.queue.length + 1 := by
  cases h with
  | push => exact List.length_append
  | unshift => rfl

theorem Action.Inserts.closed (h : a.Inserts woken object insert) (q : Store α) :
    (insert q).closed = q.closed := by
  cases h with
  | push => rfl
  | unshift => rfl

end Inserts

variable {τ α : Type} [DecidableEq τ]

/-- How a thread comes to the head of the loop of pop. -/
inductive Enters (s : State τ α) : Action τ α → τ → State τ α → Prop where
  | pop (t : τ) (nonBlock timed expired : Bool) (free : s.looping t = none) :
    Enters s (.pop t nonBlock timed expired) t { s with waiting := s.waiting ++ [t] }
  | resume (t : τ) (expired timed : Bool) (looping : s.looping t = some timed)
      (received : Condition τ) (resumes : s.received.resume t = some received) :
    Enters s (.resume t expired) t { s with received := received }

/-- What each action can do, and how it ends. -/
inductive Step [BEq α] (s : State τ α) : Action τ α → Outcome α → State τ α → Prop where
  | refused {a : Action τ α} {woken : Option τ} {object : α} {insert : Store α → Store α}
      (inserts : a.Inserts woken object insert) (closed : s.store.closed = true) :
    Step s a .closedQueueError s
  | dropped {a : Action τ α} {woken : Option τ} {object : α} {insert : Store α → Store α}
      (inserts : a.Inserts woken object insert) (full : s.store.full = true) : Step s a .dropped s
  | inserted {a : Action τ α} {woken : Option τ} {object : α} {insert : Store α → Store α}
      (inserts : a.Inserts woken object insert) (opened : s.store.closed = false)
      (room : s.store.full = false) (received : Condition τ)
      (signal : s.received.signal woken = some received) :
    Step s a (.accepted (s.store.label object))
      { s with store := insert s.store, received := received }
  | delete (t : τ) (object : α) :
    Step s (.delete t object) .done { s with store := s.store.delete object }
  | clear (t : τ) : Step s (.clear t) .done { s with store := s.store.clear }
  | close (t : τ) (opened : s.store.closed = false) :
    Step s (.close t) .done
      { s with store := s.store.close, received := s.received.wakeAll s.waiting }
  | closeAgain (t : τ) (closed : s.store.closed = true) : Step s (.close t) .done s
  | waits {a : Action τ α} {t : τ} {entered : State τ α} (timed : Bool)
      (enters : Enters s a t entered) (empty : s.store.queue = [])
      (opened : s.store.closed = false) :
    Step s a .waits { entered with
      received := entered.received.wait t
      looping := Function.update entered.looping t (some timed) }
  | popped {a : Action τ α} {t : τ} {entered : State τ α} (item : Item α) (rest : List (Item α))
      (enters : Enters s a t entered) (queue : s.store.queue = item :: rest) :
    Step s a (.popped item) { leave t entered with
      store := { s.store with queue := rest, returned := s.store.returned ++ [item] } }
  | ended {a : Action τ α} {t : τ} {entered : State τ α} (enters : Enters s a t entered)
      (empty : s.store.queue = []) (closed : s.store.closed = true) :
    Step s a .closedQueueError (leave t entered)
  | failed {a : Action τ α} {t : τ} {entered : State τ α} (enters : Enters s a t entered)
      (empty : s.store.queue = []) (opened : s.store.closed = false) :
    Step s a .threadError (leave t entered)
  | wake (t : τ) (listed : Bool) (received : Condition τ)
      (wakes : s.received.wake t listed = some received) :
    Step s (.wake t listed) .waits { s with received := received }

section Cases

variable {s s' entered : State τ α} {a : Action τ α} {o : Outcome α} {t : τ}

theorem Enters.store (h : Enters s a t entered) : entered.store = s.store := by
  cases h with
  | pop => rfl
  | resume => rfl

variable [BEq α]

theorem pushBy_cases {woken : Option τ} {object : α} {insert : Store α → Store α}
    (ha : a.Inserts woken object insert) (h : pushBy insert object woken s = some (o, s')) :
    Step s a o s' := by
  simp only [pushBy] at h
  split_ifs at h with hclosed hfull
  · cases h
    exact .refused ha hclosed
  · cases h
    exact .dropped ha hfull
  · obtain ⟨received, hsignal, heq⟩ := Option.map_eq_some_iff.mp h
    cases heq
    exact .inserted ha (by simpa using hclosed) (by simpa using hfull) received hsignal

theorem finish_cases (ha : Enters s a t entered) (h : finish t entered = (o, s')) :
    Step s a o s' := by
  have hstore := ha.store
  cases hqueue : s.store.queue with
  | nil =>
    have hshift : entered.store.shift = none := by rw [hstore, Store.shift, hqueue]
    rw [finish, hshift, hstore] at h
    cases hclosed : s.store.closed with
    | true =>
      rw [hclosed] at h
      cases h
      exact .ended ha hqueue hclosed
    | false =>
      rw [hclosed] at h
      cases h
      exact .failed ha hqueue hclosed
  | cons item rest =>
    have hshift : entered.store.shift = some (item,
        { s.store with queue := rest, returned := s.store.returned ++ [item] }) := by
      rw [hstore, Store.shift, hqueue]
    rw [finish, hshift] at h
    cases h
    exact .popped item rest ha hqueue

theorem loop_cases {nonBlock timed expired : Bool} (ha : Enters s a t entered)
    (h : loop t nonBlock timed expired entered = (o, s')) : Step s a o s' := by
  rw [loop] at h
  split_ifs at h with hblocks
  · exact finish_cases ha h
  · cases h
    simp only [ha.store, Bool.and_eq_true, List.isEmpty_iff, Bool.not_eq_true'] at hblocks
    exact .waits timed ha hblocks.1.1 hblocks.2
  · exact finish_cases ha h

theorem act_cases (h : act s a = some (o, s')) : Step s a o s' := by
  cases a with
  | push t object woken =>
    simp only [act, Option.ite_none_right_eq_some] at h
    exact pushBy_cases (.push t object woken) h.2
  | unshift t object woken =>
    simp only [act, Option.ite_none_right_eq_some] at h
    exact pushBy_cases (.unshift t object woken) h.2
  | delete t object =>
    simp only [act, Option.ite_none_right_eq_some] at h
    cases h.2
    exact .delete t object
  | clear t =>
    simp only [act, Option.ite_none_right_eq_some] at h
    cases h.2
    exact .clear t
  | close t =>
    simp only [act, Option.ite_none_right_eq_some] at h
    cases h.2
    rw [close]
    split_ifs with hclosed
    · exact .closeAgain t hclosed
    · exact .close t (by simpa using hclosed)
  | pop t nonBlock timed expired =>
    simp only [act, Option.ite_none_right_eq_some, Option.isNone_iff_eq_none] at h
    exact loop_cases (.pop t nonBlock timed expired h.1) (Option.some.inj h.2)
  | resume t expired =>
    simp only [act, resume] at h
    split at h
    next => cases h
    next timed hlooping =>
      obtain ⟨received, hresume, heq⟩ := Option.map_eq_some_iff.mp h
      exact loop_cases (.resume t expired timed hlooping received hresume) heq
  | wake t listed =>
    obtain ⟨received, hwake, heq⟩ := Option.map_eq_some_iff.mp h
    cases heq
    exact .wake t listed received hwake

theorem step_cases {max : Option Int} (h : (timeoutQueue max).step s a = some s') :
    ∃ o, Step s a o s' := by
  obtain ⟨⟨o, s''⟩, hact, rfl⟩ := Option.map_eq_some_iff.mp h
  exact ⟨o, act_cases hact⟩

end Cases

end Aloof.Ruby.TimeoutQueue
