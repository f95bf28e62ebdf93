import Aloof.Ruby.ClientProof

namespace Aloof.Ruby.Client

open Framework

/-- The counter is ahead of every call, and @pending has the call that waits and no other. -/
structure Numbered (s : State) : Prop where
  current : ∀ n, s.caller.call = some n → s.invokeId = n + 1
  used : ∀ n, s.line n ≠ .unused → n < s.invokeId
  pending : ∀ k, s.pending k = if s.caller.registered = some k then some k else none
  ended : ∀ n, s.returned n ≠ none → n < s.invokeId ∧ s.caller.call ≠ some n

/-- A frame with a Response, of the invoke id that command n has on the wire. -/
def Answers (n : Nat) (frame : List UInt8) : Prop :=
  ∃ msg, MessageDecoder.decode frame = some (.response msg) ∧ msg.invokeId = n % 128

/-- The transport's thread is in on_rx with this Response to command n. -/
def Receiver.Holds : Receiver → Nat → Response → Prop
  | .ready, _, _ => False
  | .arrived answers frame, n, msg =>
    answers = some n ∧ MessageDecoder.decode frame = some (.response msg)
  | .decoded reply, n, msg => reply = ⟨n, msg⟩
  | .found reply _, n, msg => reply = ⟨n, msg⟩

theorem Receiver.Holds.answers {receiver : Receiver} {n : Nat} {msg : Response}
    (h : receiver.Holds n msg) : receiver.answers = some n := by
  cases receiver with
  | ready => exact h.elim
  | arrived answers frame => exact h.1
  | decoded reply => cases h; rfl
  | found reply job => cases h; rfl

/-- What the server sends for a command keeps the command's invoke id modulo 128. -/
structure Echoed (s : State) : Prop where
  command : ∀ n frame, s.line n = .command frame → ∃ type, frame = Command.encode ⟨true, n, type⟩
  response : ∀ n frame, s.line n = .response frame → Answers n frame
  arrived : ∀ n frame, s.receiver = .arrived (some n) frame → Answers n frame
  decoded : ∀ reply, s.receiver = .decoded reply → reply.msg.invokeId = reply.answers % 128

/-- There is one Response to a command, and it is in one place. -/
structure Placed (s : State) : Prop where
  held : ∀ n, s.receiver.answers = some n → s.line n = .delivered
  queued : ∀ n, s.queue n ≠ [] → s.line n = .delivered ∧ s.receiver.answers ≠ some n
  discarded : ∀ reply ∈ s.discarded,
    s.line reply.answers = .delivered ∧ s.receiver.answers ≠ some reply.answers

/-- A Response is given only to the call that it answers. -/
structure Sorted (s : State) : Prop where
  found : ∀ reply job, s.receiver = .found reply job → reply.answers = job
  queue : ∀ n, ∀ reply ∈ s.queue n, reply.answers = n
  popped : ∀ n reply, s.caller = .popped n (some reply) → reply.answers = n
  returned : ∀ n reply, s.returned n = some (some reply) → reply.answers = n

/-- What on_rx has of a call whose wait has not ended arrived on time. -/
def Stamped (s : State) : Prop :=
  ∀ n, s.receiver.answers = some n → s.caller.awaited = some n →
    ∃ frame msg, s.onTime n = some frame ∧
      MessageDecoder.decode frame = some (.response msg) ∧ s.receiver.Holds n msg

structure Inv (s : State) : Prop where
  numbered : Numbered s
  echoed : Echoed s
  placed : Placed s
  sorted : Sorted s
  stamped : Stamped s

section Steps

variable {s s' : State} {a : Action}

theorem used_update {line : Nat → Line} {n bound : Nat} (h : ∀ k, line k ≠ .unused → k < bound)
    (hn : n < bound) (l : Line) {k : Nat} (hk : Function.update line n l k ≠ .unused) :
    k < bound := by
  by_cases heq : k = n
  · exact heq ▸ hn
  · exact h k (by simpa [heq] using hk)

theorem of_update {line : Nat → Line} {k n : Nat} {l m : Line}
    (h : Function.update line n l k = m) (hl : l ≠ m) : line k = m := by
  by_cases heq : k = n
  · exact absurd (by simpa [heq] using h) hl
  · simpa [heq] using h

theorem ne_of_delivered {line : Nat → Line} {k n : Nat} {l : Line} (hk : line k = .delivered)
    (hn : line n = l) (hl : l ≠ .delivered) : k ≠ n := by
  rintro rfl
  exact hl (hn.symm.trans hk)

theorem Numbered.step (h : Numbered s) (hstep : Step s a s') : Numbered s' := by
  cases hstep with
  | transmit type hidle =>
    refine ⟨?_, ?_, ?_, ?_⟩
    · simp [Caller.call]
    · have hused := fun n hn => Nat.lt_succ_of_lt (h.used n hn)
      exact fun n hn => used_update hused (Nat.lt_succ_self _) _ hn
    · simpa [hidle, Caller.registered] using h.pending
    · intro n hn
      have hlt := (h.ended n hn).1
      simp only [Caller.call, ne_eq, Option.some.injEq]
      omega
  | raise hidle =>
    refine ⟨?_, ?_, h.pending, ?_⟩
    · simp [hidle, Caller.call]
    · exact fun n hn => Nat.lt_succ_of_lt (h.used n hn)
    · exact fun n hn => ⟨Nat.lt_succ_of_lt (h.ended n hn).1, (h.ended n hn).2⟩
  | register n hsent =>
    refine ⟨?_, h.used, ?_, ?_⟩
    · simpa [hsent, Caller.call] using h.current
    · intro k
      have hk := h.pending k
      by_cases heq : k = n
      · simp [heq, Caller.registered]
      · simpa [hsent, Caller.registered, heq, Ne.symm heq] using hk
    · simpa [hsent, Caller.call] using h.ended
  | pop n reply rest hwaiting hqueue =>
    refine ⟨?_, h.used, ?_, ?_⟩
    · simpa [hwaiting, Caller.call] using h.current
    · simpa [hwaiting, Caller.registered] using h.pending
    · simpa [hwaiting, Caller.call] using h.ended
  | timeout n hwaiting hqueue =>
    refine ⟨?_, h.used, ?_, ?_⟩
    · simpa [hwaiting, Caller.call] using h.current
    · simpa [hwaiting, Caller.registered] using h.pending
    · simpa [hwaiting, Caller.call] using h.ended
  | unregister n response hpopped =>
    have hcurrent := h.current n (by simp [hpopped, Caller.call])
    refine ⟨?_, h.used, ?_, ?_⟩
    · simp [Caller.call]
    · intro k
      have hk := h.pending k
      by_cases heq : k = n
      · simp [heq, Caller.registered]
      · simpa [hpopped, Caller.registered, heq, Ne.symm heq] using hk
    · intro k hk
      by_cases heq : k = n
      · simp only [heq, hcurrent, Caller.call]
        exact ⟨Nat.lt_succ_self n, by simp⟩
      · exact ⟨(h.ended k (by simpa [heq] using hk)).1, by simp [Caller.call]⟩
  | answer n command frame hline hecho hresponse =>
    have hn := h.used n (by simp [hline])
    exact ⟨h.current, fun k hk => used_update h.used hn _ hk, h.pending, h.ended⟩
  | arrive n frame hready hline =>
    have hn := h.used n (by simp [hline])
    exact ⟨h.current, fun k hk => used_update h.used hn _ hk, h.pending, h.ended⟩
  | _ => exact ⟨h.current, h.used, h.pending, h.ended⟩

theorem Echoed.step (h : Echoed s) (hstep : Step s a s') : Echoed s' := by
  cases hstep with
  | transmit type hidle =>
    refine ⟨?_, ?_, h.arrived, h.decoded⟩
    · intro n frame hn
      by_cases heq : n = s.invokeId
      · refine ⟨type, ?_⟩
        simpa [heq, eq_comm] using hn
      · exact h.command n frame (by simpa [heq] using hn)
    · intro n frame hn
      exact h.response n frame (of_update hn (by simp))
  | answer n command frame hline hecho hresponse =>
    refine ⟨?_, ?_, h.arrived, h.decoded⟩
    · intro k frame' hk
      exact h.command k frame' (of_update hk (by simp))
    · intro k frame' hk
      by_cases heq : k = n
      · obtain ⟨type, rfl⟩ := h.command n command hline
        have hframe : frame = frame' := by simpa [heq] using hk
        subst heq hframe
        simp only [isResponse] at hresponse
        split at hresponse
        next msg hmsg => exact ⟨msg, hmsg, echoes_invokeId hecho hmsg⟩
        next => cases hresponse
      · exact h.response k frame' (by simpa [heq] using hk)
  | arrive n frame hready hline =>
    refine ⟨?_, ?_, ?_, by simp⟩
    · intro k frame' hk
      exact h.command k frame' (of_update hk (by simp))
    · intro k frame' hk
      exact h.response k frame' (of_update hk (by simp))
    · intro k frame' hk
      obtain ⟨rfl, rfl⟩ : n = k ∧ frame = frame' := by simpa using hk
      exact h.response n frame hline
  | other frame hready hforeign => exact ⟨h.command, h.response, by simp, by simp⟩
  | decode n frame msg harrived hmsg =>
    refine ⟨h.command, h.response, by simp, ?_⟩
    intro reply hreply
    obtain ⟨msg', hmsg', hid⟩ := h.arrived n frame harrived
    rw [hmsg] at hmsg'
    cases hmsg'
    cases hreply
    exact hid
  | alert answers frame msg harrived hmsg => exact ⟨h.command, h.response, by simp, by simp⟩
  | nothing answers frame harrived hmsg => exact ⟨h.command, h.response, by simp, by simp⟩
  | find reply job hdecoded hpending => exact ⟨h.command, h.response, by simp, by simp⟩
  | discard reply hdecoded hpending => exact ⟨h.command, h.response, by simp, by simp⟩
  | push reply job hfound => exact ⟨h.command, h.response, by simp, by simp⟩
  | _ => exact ⟨h.command, h.response, h.arrived, h.decoded⟩

theorem Placed.step (h : Inv s) (hstep : Step s a s') : Placed s' := by
  obtain ⟨hnumbered, -, ⟨hheld, hqueued, hdiscarded⟩, hsorted, -⟩ := h
  cases hstep with
  | transmit type hidle =>
    have hother : ∀ n, s.line n = .delivered → n ≠ s.invokeId := by
      intro n hn
      have := hnumbered.used n (by simp [hn])
      omega
    refine ⟨?_, ?_, ?_⟩
    · intro n hn
      simpa [hother n (hheld n hn)] using hheld n hn
    · intro n hn
      simpa [hother n (hqueued n hn).1] using hqueued n hn
    · intro reply hreply
      simpa [hother _ (hdiscarded reply hreply).1] using hdiscarded reply hreply
  | register n hsent =>
    refine ⟨hheld, ?_, hdiscarded⟩
    intro k hk
    by_cases heq : k = n
    · simp [heq] at hk
    · exact hqueued k (by simpa [heq] using hk)
  | pop n reply rest hwaiting hqueue =>
    refine ⟨hheld, ?_, hdiscarded⟩
    intro k hk
    by_cases heq : k = n
    · exact hqueued k (by simp [heq, hqueue])
    · exact hqueued k (by simpa [heq] using hk)
  | answer n command frame hline hecho hresponse =>
    have hother := fun k (hk : s.line k = .delivered) => ne_of_delivered hk hline (by simp)
    refine ⟨?_, ?_, ?_⟩
    · intro k hk
      simpa [hother k (hheld k hk)] using hheld k hk
    · intro k hk
      simpa [hother k (hqueued k hk).1] using hqueued k hk
    · intro reply hreply
      simpa [hother _ (hdiscarded reply hreply).1] using hdiscarded reply hreply
  | arrive n frame hready hline =>
    have hother := fun k (hk : s.line k = .delivered) => ne_of_delivered hk hline (by simp)
    refine ⟨?_, ?_, ?_⟩
    · intro k hk
      have heq : n = k := by simpa [Receiver.answers] using hk
      simp [heq]
    · intro k hk
      have hdelivered := (hqueued k hk).1
      have hne := hother k hdelivered
      simp [Receiver.answers, hne, Ne.symm hne, hdelivered]
    · intro reply hreply
      have hdelivered := (hdiscarded reply hreply).1
      have hne := hother _ hdelivered
      simp [Receiver.answers, hne, Ne.symm hne, hdelivered]
  | decode n frame msg harrived hmsg =>
    refine ⟨?_, ?_, ?_⟩
    · simpa [harrived, Receiver.answers] using hheld
    · simpa [harrived, Receiver.answers] using hqueued
    · simpa [harrived, Receiver.answers] using hdiscarded
  | find reply job hdecoded hpending =>
    refine ⟨?_, ?_, ?_⟩
    · simpa [hdecoded, Receiver.answers] using hheld
    · simpa [hdecoded, Receiver.answers] using hqueued
    · simpa [hdecoded, Receiver.answers] using hdiscarded
  | discard reply hdecoded hpending =>
    refine ⟨by simp [Receiver.answers], ?_, ?_⟩
    · exact fun k hk => ⟨(hqueued k hk).1, by simp [Receiver.answers]⟩
    · intro reply' hreply'
      refine ⟨?_, by simp [Receiver.answers]⟩
      rcases List.mem_cons.mp hreply' with rfl | hmem
      · exact hheld _ (by simp [hdecoded, Receiver.answers])
      · exact (hdiscarded reply' hmem).1
  | push reply job hfound =>
    refine ⟨by simp [Receiver.answers], ?_, ?_⟩
    · intro k hk
      refine ⟨?_, by simp [Receiver.answers]⟩
      by_cases heq : k = job
      · have hjob := hsorted.found reply job hfound
        exact hheld k (by simp [hfound, Receiver.answers, hjob, heq])
      · exact (hqueued k (by simpa [heq] using hk)).1
    · exact fun reply' hreply' => ⟨(hdiscarded reply' hreply').1, by simp [Receiver.answers]⟩
  | other | alert | nothing =>
    refine ⟨by simp [Receiver.answers], ?_, ?_⟩
    · exact fun k hk => ⟨(hqueued k hk).1, by simp [Receiver.answers]⟩
    · exact fun reply hreply => ⟨(hdiscarded reply hreply).1, by simp [Receiver.answers]⟩
  | _ => exact ⟨hheld, hqueued, hdiscarded⟩

/-- @pending is looked up with an id below 128, and the Response is to no later command than the
one that waits. -/
theorem Inv.lookup (h : Inv s) {reply : Reply} (hdecoded : s.receiver = .decoded reply) {job : Nat}
    (hpending : s.pending reply.msg.invokeId = some job) : reply.answers = job := by
  have hid := h.echoed.decoded reply hdecoded
  have hdelivered := h.placed.held reply.answers (by simp [hdecoded, Receiver.answers])
  have hused := h.numbered.used reply.answers (by simp [hdelivered])
  rw [h.numbered.pending] at hpending
  split_ifs at hpending with hregistered
  have hjob : reply.msg.invokeId = job := by simpa using hpending
  have hcall : s.caller.call = some job := by
    rw [hjob] at hregistered
    cases hcaller : s.caller <;> simp_all [Caller.registered, Caller.call]
  have hcurrent := h.numbered.current job hcall
  omega

theorem Sorted.step (h : Inv s) (hstep : Step s a s') : Sorted s' := by
  obtain ⟨hfound, hqueue, hpopped, hreturned⟩ := h.sorted
  cases hstep with
  | transmit type hidle => exact ⟨hfound, hqueue, by simp, hreturned⟩
  | register n hsent =>
    refine ⟨hfound, ?_, by simp, hreturned⟩
    intro k reply hk
    by_cases heq : k = n
    · simp [heq] at hk
    · exact hqueue k reply (by simpa [heq] using hk)
  | pop n reply rest hwaiting hshift =>
    refine ⟨hfound, ?_, ?_, hreturned⟩
    · intro k reply' hk
      by_cases heq : k = n
      · exact hqueue k reply' (by
          rw [heq, hshift]
          exact List.mem_cons_of_mem _ (by simpa [heq] using hk))
      · exact hqueue k reply' (by simpa [heq] using hk)
    · intro k reply' hk
      obtain ⟨rfl, rfl⟩ : n = k ∧ reply = reply' := by simpa using hk
      exact hqueue n reply (by simp [hshift])
  | timeout n hwaiting hempty => exact ⟨hfound, hqueue, by simp, hreturned⟩
  | unregister n response hcaller =>
    refine ⟨hfound, hqueue, by simp, ?_⟩
    intro k reply hk
    by_cases heq : k = n
    · have hresponse : response = some reply := by simpa [heq] using hk
      exact hpopped k reply (by rw [hcaller, hresponse, heq])
    · exact hreturned k reply (by simpa [heq] using hk)
  | arrive n frame hready hline => exact ⟨by simp, hqueue, hpopped, hreturned⟩
  | other frame hready hforeign => exact ⟨by simp, hqueue, hpopped, hreturned⟩
  | decode n frame msg harrived hmsg => exact ⟨by simp, hqueue, hpopped, hreturned⟩
  | alert answers frame msg harrived hmsg => exact ⟨by simp, hqueue, hpopped, hreturned⟩
  | nothing answers frame harrived hmsg => exact ⟨by simp, hqueue, hpopped, hreturned⟩
  | find reply job hdecoded hpending =>
    refine ⟨?_, hqueue, hpopped, hreturned⟩
    intro reply' job' hk
    cases hk
    exact h.lookup hdecoded hpending
  | discard reply hdecoded hpending => exact ⟨by simp, hqueue, hpopped, hreturned⟩
  | push reply job hreceiver =>
    refine ⟨by simp, ?_, hpopped, hreturned⟩
    intro k reply' hk
    by_cases heq : k = job
    · have hmem : reply' ∈ s.queue k ∨ reply' = reply := by simpa [heq] using hk
      rcases hmem with hmem | rfl
      · exact hqueue k reply' hmem
      · exact (hfound reply' job hreceiver).trans heq.symm
    · exact hqueue k reply' (by simpa [heq] using hk)
  | _ => exact ⟨hfound, hqueue, hpopped, hreturned⟩

theorem Stamped.step (h : Inv s) (hstep : Step s a s') : Stamped s' := by
  have hstamped := h.stamped
  cases hstep with
  | transmit type hidle =>
    intro n hanswers hawaited
    have hused := h.numbered.used n (by simp [h.placed.held n hanswers])
    have hn : s.invokeId = n := by simpa [Caller.awaited] using hawaited
    omega
  | raise hidle =>
    intro n _ hawaited
    simp [hidle, Caller.awaited] at hawaited
  | register n hsent =>
    intro k hanswers hawaited
    exact hstamped k hanswers (by simpa [hsent, Caller.awaited] using hawaited)
  | pop | timeout | unregister =>
    intro k _ hawaited
    simp [Caller.awaited] at hawaited
  | arrive n frame hready hline =>
    intro k hanswers hawaited
    obtain rfl : n = k := by simpa [Receiver.answers] using hanswers
    obtain ⟨msg, hmsg, -⟩ := h.echoed.response n frame hline
    exact ⟨frame, msg, by simp [hawaited], hmsg, rfl, hmsg⟩
  | decode n frame msg harrived hmsg =>
    intro k hanswers hawaited
    obtain rfl : n = k := by simpa [Receiver.answers] using hanswers
    obtain ⟨frame', msg', honTime, hmsg', hholds⟩ :=
      hstamped n (by simp [harrived, Receiver.answers]) hawaited
    obtain rfl : msg = msg' := by simpa [harrived, Receiver.Holds, hmsg] using hholds
    exact ⟨frame', msg, honTime, hmsg', rfl⟩
  | find reply job hdecoded hpending =>
    intro k hanswers hawaited
    obtain ⟨frame, msg, honTime, hmsg, hholds⟩ :=
      hstamped k (by simpa [hdecoded, Receiver.answers] using hanswers) hawaited
    exact ⟨frame, msg, honTime, hmsg, by simpa [hdecoded, Receiver.Holds] using hholds⟩
  | other | alert | nothing | discard | push =>
    intro k hanswers
    simp [Receiver.answers] at hanswers
  | answer => exact hstamped

end Steps

theorem inv_new : Inv new where
  numbered := ⟨by simp [new, Caller.call], by simp [new], by simp [new, Caller.registered],
    by simp [new]⟩
  echoed := ⟨by simp [new], by simp [new], by simp [new], by simp [new]⟩
  placed := ⟨by simp [new, Receiver.answers], by simp [new], by simp [new]⟩
  sorted := ⟨by simp [new], by simp [new], by simp [new], by simp [new]⟩
  stamped := by simp [Stamped, new, Receiver.answers]

theorem inv_invariant : System.Invariant client Inv where
  init := inv_new
  step s a s' h hstep := by
    have hcases := step_cases hstep
    exact ⟨h.numbered.step hcases, h.echoed.step hcases, Placed.step h hcases,
      Sorted.step h hcases, Stamped.step h hcases⟩

end Aloof.Ruby.Client
