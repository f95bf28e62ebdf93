import Aloof.Ruby.ClientInvariant

namespace Aloof.Ruby.Client

open Framework

inductive Custody (s : State) (n : Nat) (msg : Response) : Prop where
  | early (sent : s.caller = .sent n) (holds : s.receiver.Holds n msg)
      (unsearched : ∀ reply job, s.receiver ≠ .found reply job)
  | handled (waiting : s.caller = .waiting n) (holds : s.receiver.Holds n msg)
      (empty : s.queue n = [])
  | queued (waiting : s.caller = .waiting n) (gone : s.receiver.answers ≠ some n)
      (queue : s.queue n = [⟨n, msg⟩])
  | popped (popped : s.caller = .popped n (some ⟨n, msg⟩)) (gone : s.receiver.answers ≠ some n)
  | returned (returned : s.returned n = some (some ⟨n, msg⟩)) (gone : s.receiver.answers ≠ some n)

/-- Neither of the two orders of steps that lose a Response to call n. -/
def Gentle (n : Nat) (s : State) (a : Action) : Prop :=
  (a = .lookup → s.caller = .sent n → s.receiver.answers ≠ some n) ∧
  (a = .timeout → s.caller = .waiting n → s.receiver.answers ≠ some n)

section Steps

variable {s s' : State} {a : Action} {n : Nat} {msg : Response}

theorem delivered_step (h : Inv s) (hline : s.line n = .delivered) (hstep : Step s a s') :
    s'.line n = .delivered := by
  cases hstep with
  | transmit type hidle =>
    have hlt := h.numbered.used n (by simp [hline])
    simpa [Nat.ne_of_lt hlt] using hline
  | answer k command frame hcommand hecho hresponse =>
    have hne := ne_of_delivered hline hcommand (by simp)
    simpa [hne] using hline
  | arrive k frame hready hresponse =>
    by_cases heq : n = k
    · simp [heq]
    · simpa [heq] using hline
  | _ => exact hline

theorem gone_step (hline : s.line n = .delivered) (hgone : s.receiver.answers ≠ some n)
    (hstep : Step s a s') : s'.receiver.answers ≠ some n := by
  cases hstep with
  | arrive k frame hready hresponse =>
    have hne := ne_of_delivered hline hresponse (by simp)
    simpa [Receiver.answers] using hne.symm
  | decode k frame reply harrived hmsg => simpa [harrived, Receiver.answers] using hgone
  | find reply job hdecoded hpending => simpa [hdecoded, Receiver.answers] using hgone
  | other | alert | nothing | discard | push => simp [Receiver.answers]
  | _ => exact hgone

/-- A call that waits is in @pending, under an id that its Response has if it is one of the first
128. -/
theorem Inv.pending_waiting (h : Inv s) (hn : n < 128) (hwaiting : s.caller = .waiting n) :
    s.pending (n % 128) = some n := by
  simp [h.numbered.pending, hwaiting, Caller.registered, Nat.mod_eq_of_lt hn]

theorem early_step (hsent : s.caller = .sent n) (hholds : s.receiver.Holds n msg)
    (hunsearched : ∀ reply job, s.receiver ≠ .found reply job) (hgentle : Gentle n s a)
    (hstep : Step s a s') : Custody s' n msg := by
  cases hstep with
  | transmit type hidle => simp [hsent] at hidle
  | raise hidle => simp [hsent] at hidle
  | register k hcaller =>
    rw [hsent] at hcaller
    cases hcaller
    exact .handled rfl hholds (by simp)
  | pop k reply rest hwaiting hqueue => simp [hsent] at hwaiting
  | timeout k hwaiting hqueue => simp [hsent] at hwaiting
  | unregister k response hpopped => simp [hsent] at hpopped
  | answer k command frame hline hecho hresponse => exact .early hsent hholds hunsearched
  | arrive k frame hready hline => simp [hready, Receiver.Holds] at hholds
  | other frame hready hforeign => simp [hready, Receiver.Holds] at hholds
  | decode k frame reply harrived hmsg =>
    obtain ⟨rfl, rfl⟩ : k = n ∧ reply = msg := by
      simpa [harrived, Receiver.Holds, hmsg] using hholds
    exact .early hsent rfl (by simp)
  | alert answers frame reply harrived hmsg => simp [harrived, Receiver.Holds, hmsg] at hholds
  | nothing answers frame harrived hmsg => simp [harrived, Receiver.Holds, hmsg] at hholds
  | find reply job hdecoded hpending => exact (hgentle.1 rfl hsent hholds.answers).elim
  | discard reply hdecoded hpending => exact (hgentle.1 rfl hsent hholds.answers).elim
  | push reply job hfound => exact (hunsearched reply job hfound).elim

theorem handled_step (h : Inv s) (hn : n < 128) (hwaiting : s.caller = .waiting n)
    (hholds : s.receiver.Holds n msg) (hempty : s.queue n = []) (hgentle : Gentle n s a)
    (hstep : Step s a s') : Custody s' n msg := by
  cases hstep with
  | transmit type hidle => simp [hwaiting] at hidle
  | raise hidle => simp [hwaiting] at hidle
  | register k hsent => simp [hwaiting] at hsent
  | pop k reply rest hcaller hqueue =>
    rw [hwaiting] at hcaller
    cases hcaller
    simp [hempty] at hqueue
  | timeout k hcaller hqueue => exact (hgentle.2 rfl hwaiting hholds.answers).elim
  | unregister k response hpopped => simp [hwaiting] at hpopped
  | answer k command frame hline hecho hresponse => exact .handled hwaiting hholds hempty
  | arrive k frame hready hline => simp [hready, Receiver.Holds] at hholds
  | other frame hready hforeign => simp [hready, Receiver.Holds] at hholds
  | decode k frame reply harrived hmsg =>
    obtain ⟨rfl, rfl⟩ : k = n ∧ reply = msg := by
      simpa [harrived, Receiver.Holds, hmsg] using hholds
    exact .handled hwaiting rfl hempty
  | alert answers frame reply harrived hmsg => simp [harrived, Receiver.Holds, hmsg] at hholds
  | nothing answers frame harrived hmsg => simp [harrived, Receiver.Holds, hmsg] at hholds
  | find reply job hdecoded hpending =>
    have hreply : reply = ⟨n, msg⟩ := by simpa [hdecoded, Receiver.Holds] using hholds
    exact .handled hwaiting hreply hempty
  | discard reply hdecoded hpending =>
    have hreply : reply = ⟨n, msg⟩ := by simpa [hdecoded, Receiver.Holds] using hholds
    have hid := h.echoed.decoded reply hdecoded
    rw [hid, hreply, h.pending_waiting hn hwaiting] at hpending
    cases hpending
  | push reply job hfound =>
    have hreply : reply = ⟨n, msg⟩ := by simpa [hfound, Receiver.Holds] using hholds
    have hjob := h.sorted.found reply job hfound
    rw [hreply] at hjob
    subst hjob
    exact .queued hwaiting (by simp [Receiver.answers]) (by simp [hempty, hreply])

theorem queued_step (h : Inv s) (hwaiting : s.caller = .waiting n)
    (hgone : s.receiver.answers ≠ some n) (hqueue : s.queue n = [⟨n, msg⟩])
    (hline : s.line n = .delivered) (hstep : Step s a s') : Custody s' n msg := by
  have hgone' := gone_step hline hgone hstep
  cases hstep with
  | transmit type hidle => simp [hwaiting] at hidle
  | raise hidle => simp [hwaiting] at hidle
  | register k hsent => simp [hwaiting] at hsent
  | pop k reply rest hcaller hshift =>
    rw [hwaiting] at hcaller
    cases hcaller
    obtain ⟨rfl, -⟩ : (⟨n, msg⟩ : Reply) = reply ∧ [] = rest := by simpa [hqueue] using hshift
    exact .popped rfl hgone'
  | timeout k hcaller hshift =>
    rw [hwaiting] at hcaller
    cases hcaller
    simp [hqueue] at hshift
  | unregister k response hpopped => simp [hwaiting] at hpopped
  | push reply job hfound =>
    have hne : n ≠ job := by
      rintro rfl
      have hjob := h.sorted.found reply n hfound
      simp [hfound, Receiver.answers, hjob] at hgone
    exact .queued hwaiting hgone' (by simpa [hne] using hqueue)
  | _ => exact .queued hwaiting hgone' hqueue

theorem popped_step (hpopped : s.caller = .popped n (some ⟨n, msg⟩))
    (hgone : s.receiver.answers ≠ some n) (hline : s.line n = .delivered)
    (hstep : Step s a s') : Custody s' n msg := by
  have hgone' := gone_step hline hgone hstep
  cases hstep with
  | transmit type hidle => simp [hpopped] at hidle
  | raise hidle => simp [hpopped] at hidle
  | register k hsent => simp [hpopped] at hsent
  | pop k reply rest hwaiting hqueue => simp [hpopped] at hwaiting
  | timeout k hwaiting hqueue => simp [hpopped] at hwaiting
  | unregister k response hcaller =>
    rw [hpopped] at hcaller
    cases hcaller
    exact .returned (by simp) hgone'
  | _ => exact .popped hpopped hgone'

theorem returned_step (h : Inv s) (hreturned : s.returned n = some (some ⟨n, msg⟩))
    (hgone : s.receiver.answers ≠ some n) (hline : s.line n = .delivered)
    (hstep : Step s a s') : Custody s' n msg := by
  have hgone' := gone_step hline hgone hstep
  cases hstep with
  | unregister k response hpopped =>
    have hended := (h.numbered.ended n (by simp [hreturned])).2
    have hne : n ≠ k := by
      rintro rfl
      simp [hpopped, Caller.call] at hended
    exact .returned (by simpa [hne] using hreturned) hgone'
  | _ => exact .returned hreturned hgone'

/-- The step that discards a Response is none that has it in custody. -/
theorem Custody.not_discarded (h : Inv s) (hn : n < 128) (hc : Custody s n msg)
    (hgentle : Gentle n s .lookup) {reply : Reply} (hdecoded : s.receiver = .decoded reply)
    (hpending : s.pending reply.msg.invokeId = none) : reply ≠ ⟨n, msg⟩ := by
  rintro rfl
  have hanswers : s.receiver.answers = some n := by simp [hdecoded, Receiver.answers]
  cases hc with
  | early hsent hholds hunsearched => exact hgentle.1 rfl hsent hanswers
  | handled hwaiting hholds hempty =>
    rw [h.echoed.decoded _ hdecoded, h.pending_waiting hn hwaiting] at hpending
    cases hpending
  | queued hwaiting hgone hqueue => exact hgone hanswers
  | popped hpopped hgone => exact hgone hanswers
  | returned hreturned hgone => exact hgone hanswers

end Steps

/-- The Response to call n is in custody and not lost. -/
structure Safe (s : State) (n : Nat) (msg : Response) : Prop where
  line : s.line n = .delivered
  custody : Custody s n msg
  undiscarded : ⟨n, msg⟩ ∉ s.discarded

theorem Safe.step {s s' : State} {a : Action} {n : Nat} {msg : Response} (h : Inv s)
    (hn : n < 128) (hs : Safe s n msg) (hgentle : Gentle n s a) (hstep : Step s a s') :
    Safe s' n msg := by
  refine ⟨delivered_step h hs.line hstep, ?_, ?_⟩
  · cases hs.custody with
    | early hsent hholds hunsearched => exact early_step hsent hholds hunsearched hgentle hstep
    | handled hwaiting hholds hempty =>
      exact handled_step h hn hwaiting hholds hempty hgentle hstep
    | queued hwaiting hgone hqueue => exact queued_step h hwaiting hgone hqueue hs.line hstep
    | popped hpopped hgone => exact popped_step hpopped hgone hs.line hstep
    | returned hreturned hgone => exact returned_step h hreturned hgone hs.line hstep
  · cases hstep with
    | discard reply hdecoded hpending =>
      have hne := hs.custody.not_discarded h hn hgentle hdecoded hpending
      intro hmem
      rcases List.mem_cons.mp hmem with heq | hmem
      · exact hne heq.symm
      · exact hs.undiscarded hmem
    | _ => exact hs.undiscarded

/-- A Response that arrives before its call's wait has ended. -/
theorem Safe.arrive {s : State} {n : Nat} {msg : Response} {frame : List UInt8} (h : Inv s)
    (hawaited : s.caller.awaited = some n) (hreceiver : s.receiver = .arrived (some n) frame)
    (hmsg : MessageDecoder.decode frame = some (.response msg)) : Safe s n msg := by
  have hholds : s.receiver.Holds n msg := by simp [hreceiver, Receiver.Holds, hmsg]
  have hanswers := hholds.answers
  refine ⟨h.placed.held n hanswers, ?_, ?_⟩
  · cases hcaller : s.caller with
    | idle => simp [hcaller, Caller.awaited] at hawaited
    | sent k =>
      obtain rfl : k = n := by simpa [hcaller, Caller.awaited] using hawaited
      exact .early hcaller hholds (by simp [hreceiver])
    | waiting k =>
      obtain rfl : k = n := by simpa [hcaller, Caller.awaited] using hawaited
      refine .handled hcaller hholds ?_
      by_contra hqueue
      exact (h.placed.queued k hqueue).2 hanswers
    | popped k response => simp [hcaller, Caller.awaited] at hawaited
  · intro hmem
    exact (h.placed.discarded _ hmem).2 hanswers

/-- A Response that is safe goes to its call: the Response is not discarded, and the call returns
it or is in progress. -/
def Kept (s : State) (n : Nat) (msg : Response) : Prop :=
  ⟨n, msg⟩ ∉ s.discarded ∧
    (s.returned n = some (some ⟨n, msg⟩) ∨ s.caller.call = some n ∧ s.returned n = none)

theorem Safe.kept {s : State} {n : Nat} {msg : Response} (h : Inv s) (hs : Safe s n msg) :
    Kept s n msg := by
  have hprogress : s.caller.call = some n → s.returned n = none := by
    intro hcall
    by_contra hreturned
    exact (h.numbered.ended n hreturned).2 hcall
  refine ⟨hs.undiscarded, ?_⟩
  cases hs.custody with
  | early hsent hholds hunsearched =>
    have hcall : s.caller.call = some n := by simp [hsent, Caller.call]
    exact .inr ⟨hcall, hprogress hcall⟩
  | handled hwaiting hholds hempty =>
    have hcall : s.caller.call = some n := by simp [hwaiting, Caller.call]
    exact .inr ⟨hcall, hprogress hcall⟩
  | queued hwaiting hgone hqueue =>
    have hcall : s.caller.call = some n := by simp [hwaiting, Caller.call]
    exact .inr ⟨hcall, hprogress hcall⟩
  | popped hpopped hgone =>
    have hcall : s.caller.call = some n := by simp [hpopped, Caller.call]
    exact .inr ⟨hcall, hprogress hcall⟩
  | returned hreturned hgone => exact .inl hreturned

/-- No wait times out, and nothing is looked up between tx and registration. -/
def Prompt (s : State) (a : Action) : Prop :=
  a ≠ .timeout ∧ (a = .lookup → ∀ n, s.caller ≠ .sent n)

/-- A run can end call n with this Response. -/
def Completes (s : State) (n : Nat) (msg : Response) : Prop :=
  ∃ s', System.Path client Prompt s s' ∧ s'.returned n = some (some ⟨n, msg⟩)

section Completion

variable {s : State} {n : Nat} {msg : Response}

theorem Completes.cons {s' : State} {a : Action} (hstep : Step s a s') (hprompt : Prompt s a)
    (h : Completes s' n msg) : Completes s n msg := by
  obtain ⟨s'', hpath, hreturned⟩ := h
  exact ⟨s'', .cons hprompt (enabled hstep) hpath, hreturned⟩

theorem completes_popped (hpopped : s.caller = .popped n (some ⟨n, msg⟩)) : Completes s n msg := by
  refine .cons (.unregister n _ hpopped) (by simp [Prompt]) ⟨_, .nil, ?_⟩
  simp

theorem completes_queued (hwaiting : s.caller = .waiting n) (hqueue : s.queue n = [⟨n, msg⟩]) :
    Completes s n msg :=
  .cons (.pop n _ [] hwaiting hqueue) (by simp [Prompt]) (completes_popped rfl)

theorem completes_found (hwaiting : s.caller = .waiting n) (hempty : s.queue n = [])
    (hfound : s.receiver = .found ⟨n, msg⟩ n) : Completes s n msg := by
  refine .cons (.push _ n hfound) (by simp [Prompt]) (completes_queued hwaiting ?_)
  simp [hempty]

theorem completes_decoded (hwaiting : s.caller = .waiting n) (hempty : s.queue n = [])
    (hdecoded : s.receiver = .decoded ⟨n, msg⟩) (hpending : s.pending msg.invokeId = some n) :
    Completes s n msg :=
  .cons (.find _ n hdecoded hpending) (by simp [Prompt, hwaiting])
    (completes_found hwaiting hempty rfl)

theorem completes_arrived (hwaiting : s.caller = .waiting n) (hempty : s.queue n = [])
    {frame : List UInt8} (harrived : s.receiver = .arrived (some n) frame)
    (hmsg : MessageDecoder.decode frame = some (.response msg))
    (hpending : s.pending msg.invokeId = some n) : Completes s n msg :=
  .cons (.decode n frame msg harrived hmsg) (by simp [Prompt])
    (completes_decoded hwaiting hempty rfl hpending)

/-- The invoke id of a Response on its way is that of its command modulo 128. -/
theorem Inv.invokeId_of_holds (h : Inv s) (hholds : s.receiver.Holds n msg)
    (hunsearched : ∀ reply job, s.receiver ≠ .found reply job) : msg.invokeId = n % 128 := by
  cases hreceiver : s.receiver with
  | ready => simp [hreceiver, Receiver.Holds] at hholds
  | arrived answers frame =>
    rw [hreceiver] at hholds
    obtain ⟨rfl, hmsg⟩ := hholds
    obtain ⟨msg', hmsg', hid⟩ := h.echoed.arrived n frame hreceiver
    rw [hmsg] at hmsg'
    cases hmsg'
    exact hid
  | decoded reply =>
    rw [hreceiver] at hholds
    cases hholds
    exact h.echoed.decoded _ hreceiver
  | found reply job => exact (hunsearched reply job hreceiver).elim

theorem handled_completes (h : Inv s) (hn : n < 128) (hwaiting : s.caller = .waiting n)
    (hholds : s.receiver.Holds n msg) (hempty : s.queue n = []) : Completes s n msg := by
  have hpending := h.pending_waiting hn hwaiting
  have hid := h.invokeId_of_holds hholds
  cases hreceiver : s.receiver with
  | ready => simp [hreceiver, Receiver.Holds] at hholds
  | arrived answers frame =>
    rw [← hid (by simp [hreceiver])] at hpending
    rw [hreceiver] at hholds
    obtain ⟨rfl, hmsg⟩ := hholds
    exact completes_arrived hwaiting hempty hreceiver hmsg hpending
  | decoded reply =>
    rw [← hid (by simp [hreceiver])] at hpending
    rw [hreceiver] at hholds
    cases hholds
    exact completes_decoded hwaiting hempty hreceiver hpending
  | found reply job =>
    have hjob := h.sorted.found reply job hreceiver
    rw [hreceiver] at hholds
    cases hholds
    subst hjob
    exact completes_found hwaiting hempty hreceiver

theorem Safe.completes (h : Inv s) (hn : n < 128) (hs : Safe s n msg) : Completes s n msg := by
  cases hs.custody with
  | early hsent hholds hunsearched =>
    have hregister := Step.register n hsent
    have h' := inv_invariant.step _ _ _ h (enabled hregister)
    refine .cons hregister (by simp [Prompt]) (handled_completes h' hn rfl hholds ?_)
    simp
  | handled hwaiting hholds hempty => exact handled_completes h hn hwaiting hholds hempty
  | queued hwaiting hgone hqueue => exact completes_queued hwaiting hqueue
  | popped hpopped hgone => exact completes_popped hpopped
  | returned hreturned hgone => exact ⟨s, .nil, hreturned⟩

end Completion

end Aloof.Ruby.Client
