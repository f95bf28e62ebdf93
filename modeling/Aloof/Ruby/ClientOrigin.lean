import Aloof.Ruby.ClientInvariant

namespace Aloof.Ruby.Client

open Framework

variable {P : Nat → Response → Prop} {s s' : State} {a : Action}

/-- A Response to command n that is anywhere on its way has the property P n. -/
structure Vouched (P : Nat → Response → Prop) (s : State) : Prop where
  sent : ∀ n frame msg, s.line n = .response frame →
    MessageDecoder.decode frame = some (.response msg) → P n msg
  held : ∀ n msg, s.receiver.Holds n msg → P n msg
  queued : ∀ n, ∀ reply ∈ s.queue n, P reply.answers reply.msg
  popped : ∀ n reply, s.caller = .popped n (some reply) → P reply.answers reply.msg
  returned : ∀ n reply, s.returned n = some (some reply) → P reply.answers reply.msg

/-- The answers of this step have the property. -/
def Vouches (P : Nat → Response → Prop) (a : Action) : Prop :=
  ∀ n frame msg, a = .answer n frame →
    MessageDecoder.decode frame = some (.response msg) → P n msg

theorem vouched_new : Vouched P new := by
  constructor
  · intro n frame msg h
    cases h
  · intro n msg h
    cases h
  · intro n reply h
    cases h
  · intro n reply h
    cases h
  · intro n reply h
    cases h

theorem Vouched.mono {Q : Nat → Response → Prop} (h : Vouched P s) (hPQ : ∀ n msg, P n msg → Q n msg) :
    Vouched Q s where
  sent n frame msg hn hmsg := hPQ n msg (h.sent n frame msg hn hmsg)
  held n msg hn := hPQ n msg (h.held n msg hn)
  queued n reply hn := hPQ _ _ (h.queued n reply hn)
  popped n reply hn := hPQ _ _ (h.popped n reply hn)
  returned n reply hn := hPQ _ _ (h.returned n reply hn)

theorem Vouched.step (h : Vouched P s) (hanswer : Vouches P a) (hstep : Step s a s') :
    Vouched P s' := by
  cases hstep with
  | transmit type hidle =>
    refine ⟨?_, h.held, h.queued, by simp, h.returned⟩
    intro n frame msg hn
    exact h.sent n frame msg (of_update hn (by simp))
  | register n hsent =>
    refine ⟨h.sent, h.held, ?_, by simp, h.returned⟩
    intro k reply hk
    by_cases heq : k = n
    · simp [heq] at hk
    · exact h.queued k reply (by simpa [heq] using hk)
  | pop n reply rest hwaiting hqueue =>
    have hmem := h.queued n
    rw [hqueue] at hmem
    refine ⟨h.sent, h.held, ?_, ?_, h.returned⟩
    · intro k reply' hk
      by_cases heq : k = n
      · exact hmem reply' (List.mem_cons_of_mem _ (by simpa [heq] using hk))
      · exact h.queued k reply' (by simpa [heq] using hk)
    · intro k reply' hk
      cases hk
      exact hmem reply List.mem_cons_self
  | timeout n hwaiting hqueue => exact ⟨h.sent, h.held, h.queued, by simp, h.returned⟩
  | unregister n response hpopped =>
    refine ⟨h.sent, h.held, h.queued, by simp, ?_⟩
    intro k reply hk
    by_cases heq : k = n
    · obtain rfl : response = some reply := by simpa [heq] using hk
      exact h.popped n reply hpopped
    · exact h.returned k reply (by simpa [heq] using hk)
  | answer n command frame hline hecho hresponse =>
    refine ⟨?_, h.held, h.queued, h.popped, h.returned⟩
    intro k frame' msg hk hmsg
    by_cases heq : k = n
    · obtain rfl : frame = frame' := by simpa [heq] using hk
      exact heq ▸ hanswer n frame msg rfl hmsg
    · exact h.sent k frame' msg (by simpa [heq] using hk) hmsg
  | arrive n frame hready hline =>
    refine ⟨?_, ?_, h.queued, h.popped, h.returned⟩
    · intro k frame' msg hk
      exact h.sent k frame' msg (of_update hk (by simp))
    · intro k msg h
      obtain ⟨⟨⟩, hmsg⟩ := h
      exact h.sent n frame msg hline hmsg
  | other frame hready hforeign =>
    refine ⟨h.sent, ?_, h.queued, h.popped, h.returned⟩
    intro k msg h
    obtain ⟨⟨⟩, -⟩ := h
  | decode n frame msg harrived hmsg =>
    refine ⟨h.sent, ?_, h.queued, h.popped, h.returned⟩
    intro k msg' h
    cases h
    exact h.held n msg (by simp [harrived, Receiver.Holds, hmsg])
  | find reply job hdecoded hpending =>
    refine ⟨h.sent, ?_, h.queued, h.popped, h.returned⟩
    intro k msg h
    cases h
    exact h.held k msg (by simp [hdecoded, Receiver.Holds])
  | push reply job hfound =>
    have hreply : P reply.answers reply.msg := h.held _ _ (by simp [hfound, Receiver.Holds])
    refine ⟨h.sent, fun _ _ hnone => hnone.elim, ?_, h.popped, h.returned⟩
    intro k reply' hk
    by_cases heq : k = job
    · have hk' : reply' ∈ s.queue job ∨ reply' = reply := by simpa [heq] using hk
      rcases hk' with hold | rfl
      · exact h.queued job reply' hold
      · exact hreply
    · exact h.queued k reply' (by simpa [heq] using hk)
  | alert | nothing | discard =>
    exact ⟨h.sent, fun _ _ hnone => hnone.elim, h.queued, h.popped, h.returned⟩
  | raise => exact ⟨h.sent, h.held, h.queued, h.popped, h.returned⟩

theorem Step.invokeId_le (hstep : Step s a s') : s.invokeId ≤ s'.invokeId := by
  cases hstep with
  | transmit | raise => exact Nat.le_succ _
  | _ => exact Nat.le_refl _

/-- Only the server takes a command from the line. -/
theorem Step.command {n : Nat} {command : List UInt8} (hstep : Step s a s')
    (hanswer : ∀ frame, a ≠ .answer n frame) (hn : n < s.invokeId)
    (hline : s.line n = .command command) : s'.line n = .command command := by
  cases hstep with
  | transmit type hidle => simpa [Nat.ne_of_lt hn] using hline
  | answer k command' frame hline' hecho hresponse =>
    have hne : n ≠ k := by
      rintro rfl
      exact hanswer frame rfl
    simpa [hne] using hline
  | arrive k frame hready hline' =>
    have hne : n ≠ k := by
      rintro rfl
      cases hline.symm.trans hline'
    simpa [hne] using hline
  | _ => exact hline

/-- The frame of a command that waits for its answer, by what the call was made with. -/
def Issued (issued : Nat → CommandType) (s : State) : Prop :=
  ∀ n command, s.line n = .command command → command = Command.encode ⟨true, n, issued n⟩

theorem Issued.step {issued : Nat → CommandType} (h : Issued issued s)
    (htransmit : ∀ type, a = .transmit type → issued s.invokeId = type) (hstep : Step s a s') :
    Issued issued s' := by
  cases hstep with
  | transmit type hidle =>
    intro n command hn
    by_cases heq : n = s.invokeId
    · subst heq
      rw [htransmit type rfl]
      simpa [eq_comm] using hn
    · exact h n command (by simpa [heq] using hn)
  | answer n command frame hline hecho hresponse =>
    exact fun k command' hk => h k command' (of_update hk (by simp))
  | arrive n frame hready hline =>
    exact fun k command' hk => h k command' (of_update hk (by simp))
  | _ => exact h

end Aloof.Ruby.Client
