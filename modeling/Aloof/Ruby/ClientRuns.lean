import Aloof.Ruby.ClientCustody

namespace Aloof.Ruby.Client

open Framework

section Samples

/-- A Response to command n: the write was a success. -/
def accepted (n : Nat) : List UInt8 := [4, invokeByte true n, 0, 0]

theorem decode_accepted (n : Nat) :
    ∃ msg, MessageDecoder.decode (accepted n) = some (.response msg) ∧ msg.invokeId = n % 128 := by
  refine ⟨⟨(invokeByte true n &&& 0x80) != 0, (invokeByte true n &&& 0x7f).toNat,
    .write ⟨.success⟩⟩, ?_, invokeByte_and true n⟩
  rw [MessageDecoder.decode, accepted, Base.decode_response]
  rfl

theorem accepted_echoes (n : Nat) (type : CommandType) :
    echoes (Command.encode ⟨true, n, type⟩) (accepted n) = true :=
  echoes_reply n type [0, 0]

theorem accepted_isResponse (n : Nat) : isResponse (accepted n) = true := by
  obtain ⟨msg, hmsg, -⟩ := decode_accepted n
  rw [isResponse, hmsg]

/-- Steps that are neither a lookup nor a timeout. -/
def Plain (_ : State) (a : Action) : Prop := a ≠ .lookup ∧ a ≠ .timeout

/-- From an idle client to the next call's Response, in the hands of on_rx while the call waits. -/
theorem exchange {s : State} (hidle : s.caller = .idle) (hready : s.receiver = .ready) :
    ∃ s', System.Path client Plain s s' ∧ s'.caller = .waiting s.invokeId ∧
      s'.receiver = .arrived (some s.invokeId) (accepted s.invokeId) ∧
      s'.onTime s.invokeId = some (accepted s.invokeId) := by
  let type : CommandType := .read ⟨0⟩
  refine ⟨_, .cons ?_ (enabled (.transmit type hidle)) <|
    .cons ?_ (enabled (.register s.invokeId rfl)) <|
    .cons ?_ (enabled (.answer s.invokeId (Command.encode ⟨true, s.invokeId, type⟩)
      (accepted s.invokeId) ?_ (accepted_echoes _ _) (accepted_isResponse _))) <|
    .cons ?_ (enabled (.arrive s.invokeId (accepted s.invokeId) hready ?_)) .nil, ?_, ?_, ?_⟩
  all_goals simp [Plain, Caller.awaited]

/-- A call that gets no answer. -/
theorem unanswered {s : State} (hidle : s.caller = .idle) (hready : s.receiver = .ready) :
    ∃ s', System.Path client (fun _ _ => True) s s' ∧ s'.caller = .idle ∧ s'.receiver = .ready ∧
      s'.invokeId = s.invokeId + 1 := by
  refine ⟨_, .cons trivial (enabled (.transmit (.read ⟨0⟩) hidle)) <|
    .cons trivial (enabled (.register s.invokeId rfl)) <|
    .cons trivial (enabled (.timeout s.invokeId rfl ?_)) <|
    .cons trivial (enabled (.unregister s.invokeId none rfl)) .nil, rfl, hready, rfl⟩
  simp

end Samples

section Wrap

/-- The wait of call n does not time out. -/
def Unexpired (n : Nat) (s : State) (a : Action) : Prop := a = .timeout → s.caller ≠ .waiting n

/-- A Response that has come for the waiting call n gets there: on_rx finds the call's queue, and
unless the call times out first it ends with the Response. -/
structure Answered (s : State) (n : Nat) (msg : Response) : Prop where
  found : s.pending msg.invokeId = some n
  completes : Completes s n msg
  kept : ∀ s', System.Path client (Unexpired n) s s' → Kept s' n msg

theorem unsent_step {s s' : State} {a : Action} {n : Nat} (h : Inv s)
    (hline : s.line n = .delivered) (hunsent : s.caller ≠ .sent n) (hstep : Step s a s') :
    s'.caller ≠ .sent n := by
  cases hstep with
  | transmit type hidle =>
    have hused := h.numbered.used n (by simp [hline])
    simpa using (Nat.ne_of_lt hused).symm
  | register | pop | timeout | unregister => simp
  | _ => exact hunsent

/-- Past the registration, only a timeout takes a Response from its call. -/
theorem Safe.path {s s' : State} {n : Nat} {msg : Response} (hr : client.Reachable s)
    (hn : n < 128) (hs : Safe s n msg) (hunsent : s.caller ≠ .sent n)
    (hpath : System.Path client (Unexpired n) s s') : Safe s' n msg := by
  have hboth : Safe s' n msg ∧ s'.caller ≠ .sent n := by
    refine inv_invariant.path (Q := fun s => Safe s n msg ∧ s.caller ≠ .sent n) hr ⟨hs, hunsent⟩
      ?_ hpath
    rintro s a s' hinv ⟨hs, hunsent⟩ hunexpired hstep
    have hcases := step_cases hstep
    have hgentle : Gentle n s a :=
      ⟨fun _ hsent => (hunsent hsent).elim, fun ha hwaiting => (hunexpired ha hwaiting).elim⟩
    exact ⟨hs.step hinv hn hgentle hcases, unsent_step hinv hs.line hunsent hcases⟩
  exact hboth.1

theorem answered_of_lt {s : State} {n : Nat} {msg : Response} {frame : List UInt8}
    (hr : client.Reachable s) (hn : n < 128) (hwaiting : s.caller = .waiting n)
    (harrived : s.receiver = .arrived (some n) frame)
    (hmsg : MessageDecoder.decode frame = some (.response msg)) : Answered s n msg := by
  have hinv := inv_invariant.reachable hr
  have hsafe : Safe s n msg := Safe.arrive hinv (by simp [hwaiting, Caller.awaited]) harrived hmsg
  have hid : msg.invokeId = n % 128 :=
    hinv.invokeId_of_holds (by simp [harrived, Receiver.Holds, hmsg]) (by simp [harrived])
  refine ⟨?_, hsafe.completes hinv hn, fun s' hpath => ?_⟩
  · rw [hid]
    exact hinv.pending_waiting hn hwaiting
  · have hsafe' := hsafe.path hr hn (by simp [hwaiting]) hpath
    exact hsafe'.kept (inv_invariant.reachable (hpath.reachable hr))

/-- From the 128th on, a call is in @pending under an id that no Response has. -/
theorem pending_of_ge {s : State} {n : Nat} (hinv : Inv s) (hn : 128 ≤ n)
    (hwaiting : s.caller = .waiting n) : s.pending (n % 128) = none := by
  have hne : n ≠ n % 128 := by omega
  simp [hinv.numbered.pending, hwaiting, Caller.registered, hne]

/-- The Response that has come for a waiting call gets there exactly if the call is one of the first
128; and no call is given a Response to another. -/
theorem waiting_call_answered {s : State} (hr : client.Reachable s) :
    (∀ n frame, s.caller = .waiting n → s.receiver = .arrived (some n) frame →
      ∃ msg, MessageDecoder.decode frame = some (.response msg) ∧ (Answered s n msg ↔ n < 128)) ∧
    ∀ n reply, reply ∈ s.queue n ∨ s.returned n = some (some reply) → reply.answers = n := by
  have hinv := inv_invariant.reachable hr
  refine ⟨?_, ?_⟩
  · intro n frame hwaiting harrived
    obtain ⟨msg, hmsg, hid⟩ := hinv.echoed.arrived n frame harrived
    refine ⟨msg, hmsg, ?_, fun hn => answered_of_lt hr hn hwaiting harrived hmsg⟩
    intro hanswered
    by_contra hge
    have hfound := hanswered.found
    rw [hid, pending_of_ge hinv (Nat.not_lt.mp hge) hwaiting] at hfound
    cases hfound
  · intro n reply hreply
    rcases hreply with hqueue | hreturned
    · exact hinv.sorted.queue n reply hqueue
    · exact hinv.sorted.returned n reply hreturned

/-- The first call of a client. -/
theorem waiting_call_answered_first :
    ∃ s msg, s.caller = .waiting 0 ∧ s.receiver = .arrived (some 0) (accepted 0) ∧
      MessageDecoder.decode (accepted 0) = some (.response msg) ∧ Answered s 0 msg := by
  obtain ⟨s, hpath, hwaiting, harrived, -⟩ := exchange (s := new) rfl rfl
  have hr : client.Reachable s := hpath.mono fun _ _ _ => trivial
  obtain ⟨msg, hmsg, hanswered⟩ := (waiting_call_answered hr).1 0 _ hwaiting harrived
  exact ⟨s, msg, hwaiting, harrived, hmsg, hanswered.mpr (by decide)⟩

/-- After 128 calls, the Response to the next one finds no job. -/
theorem waiting_call_unanswered :
    ∃ s msg, client.Reachable s ∧ s.caller = .waiting 128 ∧
      s.receiver = .arrived (some 128) (accepted 128) ∧
      MessageDecoder.decode (accepted 128) = some (.response msg) ∧
      s.pending msg.invokeId = none ∧ ¬ Answered s 128 msg := by
  have hcalls : ∃ s, client.Reachable s ∧
      s.caller = .idle ∧ s.receiver = .ready ∧ s.invokeId = 128 := by
    refine System.Path.iterate
      (Q := fun n (s : State) => s.caller = .idle ∧ s.receiver = .ready ∧ s.invokeId = n) .nil
      ⟨rfl, rfl, rfl⟩ ?_ 128
    rintro n s - ⟨hidle, hready, rfl⟩
    exact unanswered hidle hready
  obtain ⟨s₁, hpath₁, hidle, hready, hid⟩ := hcalls
  obtain ⟨s₂, hpath₂, hwaiting, harrived, -⟩ := exchange hidle hready
  rw [hid] at hwaiting harrived
  have hr : client.Reachable s₂ := hpath₁.trans (hpath₂.mono fun _ _ _ => trivial)
  obtain ⟨msg, hmsg, hmod⟩ := decode_accepted 128
  have hnone : s₂.pending msg.invokeId = none := by
    rw [hmod]
    exact pending_of_ge (inv_invariant.reachable hr) (Nat.le_refl 128) hwaiting
  refine ⟨s₂, msg, hr, hwaiting, harrived, hmsg, hnone, fun hanswered => ?_⟩
  have hfound := hanswered.found
  rw [hnone] at hfound
  cases hfound

end Wrap

section Race

/-- No Response to one of the first 128 commands is looked up between tx and registration, and none
of their waits times out while on_rx has the Response. -/
def Orderly (s : State) (a : Action) : Prop := ∀ n < 128, Gentle n s a

/-- Every Response to one of the first 128 commands that arrived before the end of the call's wait
is returned by the call, or is on its way there. -/
def NoneLost (s : State) : Prop :=
  ∀ n < 128, ∀ frame msg, s.onTime n = some frame →
    MessageDecoder.decode frame = some (.response msg) → Kept s n msg ∧ Completes s n msg

def AllSafe (s : State) : Prop :=
  ∀ n < 128, ∀ frame msg, s.onTime n = some frame →
    MessageDecoder.decode frame = some (.response msg) → Safe s n msg

theorem onTime_cases {s s' : State} {a : Action} {n : Nat} {frame : List UInt8}
    (hstep : Step s a s') (h : s'.onTime n = some frame) :
    s.onTime n = some frame ∨
      s'.caller.awaited = some n ∧ s'.receiver = .arrived (some n) frame := by
  cases hstep with
  | arrive k frame' hready hline =>
    by_cases hawaited : s.caller.awaited = some k
    · by_cases heq : n = k
      · subst heq
        have hframe : frame' = frame := by simpa [hawaited] using h
        subst hframe
        exact .inr ⟨hawaited, rfl⟩
      · exact .inl (by simpa [hawaited, heq] using h)
    · exact .inl (by simpa [hawaited] using h)
  | _ => exact .inl h

theorem AllSafe.step {s s' : State} {a : Action} (hinv : Inv s) (hs : AllSafe s)
    (horderly : Orderly s a) (hstep : client.step s a = some s') : AllSafe s' := by
  have hcases := step_cases hstep
  intro n hn frame msg honTime hmsg
  rcases onTime_cases hcases honTime with hold | ⟨hawaited, harrived⟩
  · exact (hs n hn frame msg hold hmsg).step hinv hn (horderly n hn) hcases
  · exact Safe.arrive (inv_invariant.step _ _ _ hinv hstep) hawaited harrived hmsg

/-- In an orderly run no Response is lost. -/
theorem orderly_run_loses_none {s : State} (h : System.Path client Orderly client.init s) :
    NoneLost s := by
  have hinv := inv_invariant.reachable (h.reachable .nil)
  have hsafe : AllSafe s :=
    inv_invariant.path .nil (by simp [AllSafe, client, new])
      (fun s a s' hinv hs horderly hstep => hs.step hinv horderly hstep) h
  intro n hn frame msg honTime hmsg
  have hs := hsafe n hn frame msg honTime hmsg
  exact ⟨hs.kept hinv, hs.completes hinv hn⟩

/-- The first call's Response, come while the call waits. -/
theorem orderly_run_loses_none_first :
    ∃ s msg, s.onTime 0 = some (accepted 0) ∧
      MessageDecoder.decode (accepted 0) = some (.response msg) ∧
      Kept s 0 msg ∧ Completes s 0 msg := by
  obtain ⟨s, hpath, -, -, honTime⟩ := exchange (s := new) rfl rfl
  have horderly : System.Path client Orderly client.init s :=
    hpath.mono fun _ _ hplain _ _ => ⟨fun ha => (hplain.1 ha).elim, fun ha => (hplain.2 ha).elim⟩
  obtain ⟨msg, hmsg, -⟩ := decode_accepted 0
  exact ⟨s, msg, honTime, hmsg,
    orderly_run_loses_none horderly 0 (by decide) _ _ honTime hmsg⟩

/-- A Response that is quicker than the registration is discarded. -/
theorem early_response_lost :
    ∃ s msg, client.Reachable s ∧ s.onTime 0 = some (accepted 0) ∧
      MessageDecoder.decode (accepted 0) = some (.response msg) ∧ ⟨0, msg⟩ ∈ s.discarded ∧
      ¬ NoneLost s := by
  obtain ⟨msg, hmsg, -⟩ := decode_accepted 0
  let type : CommandType := .read ⟨0⟩
  have hpath : ∃ s, client.Reachable s ∧ s.onTime 0 = some (accepted 0) ∧
      ⟨0, msg⟩ ∈ s.discarded := by
    refine ⟨_, .cons trivial (enabled (s := new) (.transmit type rfl)) <|
      .cons trivial (enabled (.answer 0 (Command.encode ⟨true, 0, type⟩) (accepted 0) ?_
        (accepted_echoes _ _) (accepted_isResponse _))) <|
      .cons trivial (enabled (.arrive 0 (accepted 0) rfl ?_)) <|
      .cons trivial (enabled (.decode 0 (accepted 0) msg rfl hmsg)) <|
      .cons trivial (enabled (.discard ⟨0, msg⟩ rfl rfl)) .nil, ?_, ?_⟩
    all_goals simp [new, Caller.awaited]
  obtain ⟨s, hr, honTime, hmem⟩ := hpath
  refine ⟨s, msg, hr, honTime, hmsg, hmem, fun hnone => ?_⟩
  exact (hnone 0 (by decide) _ _ honTime hmsg).1.1 hmem

/-- Every other run loses one: a step that is not orderly leads there, at once or when the call
returns. -/
theorem disorderly_step_loses {s s' : State} {a : Action} (hr : client.Reachable s)
    (hstep : client.step s a = some s') (hdisorderly : ¬ Orderly s a) :
    ∃ s'', System.Path client Orderly s' s'' ∧ ¬ NoneLost s'' := by
  have hinv := inv_invariant.reachable hr
  simp only [Orderly, Gentle, not_forall, not_and_or] at hdisorderly
  obtain ⟨n, hn, ⟨rfl, hsent, hanswers⟩ | ⟨rfl, hwaiting, hanswers⟩⟩ := hdisorderly
  · rw [not_not] at hanswers
    obtain ⟨frame, msg, honTime, hmsg, hholds⟩ :=
      hinv.stamped n hanswers (by simp [hsent, Caller.awaited])
    cases step_cases hstep with
    | find reply job hdecoded hpending =>
      simp [hinv.numbered.pending, hsent, Caller.registered] at hpending
    | discard reply hdecoded hpending =>
      have hreply : reply = ⟨n, msg⟩ := by simpa [hdecoded, Receiver.Holds] using hholds
      refine ⟨_, .nil, fun hnone => ?_⟩
      exact (hnone n hn frame msg honTime hmsg).1.1 (by simp [hreply])
  · rw [not_not] at hanswers
    obtain ⟨frame, msg, honTime, hmsg, -⟩ :=
      hinv.stamped n hanswers (by simp [hwaiting, Caller.awaited])
    cases step_cases hstep with
    | timeout k hcaller hqueue =>
      rw [hwaiting] at hcaller
      cases hcaller
      refine ⟨_, .cons (by simp [Orderly, Gentle]) (enabled (.unregister n none rfl)) .nil,
        fun hnone => ?_⟩
      have hkept := (hnone n hn frame msg honTime hmsg).1.2
      simp at hkept

end Race

end Aloof.Ruby.Client
