import Aloof.Ruby.ClientInvariant

namespace Aloof.Ruby.Client

open Framework

/-- The frame that an action brings from outside of the calls. -/
def Action.foreign : Action → Option (List UInt8)
  | other frame => some frame
  | _ => none

/-- The Alert in a frame. -/
def alert? (frame : List UInt8) : Option Alert :=
  match MessageDecoder.decode frame with
  | some (.alert msg) => some msg
  | _ => none

/-- The Alert in the frame in hand. -/
def Receiver.alert : Receiver → Option Alert
  | arrived _ frame => alert? frame
  | _ => none

/-- What the block of on_alert was called with, and what it is called with next. -/
def State.heard (s : State) : List Alert := s.alerts ++ s.receiver.alert.toList

theorem alert?_of_response {frame : List UInt8} {msg : Response}
    (h : MessageDecoder.decode frame = some (.response msg)) : alert? frame = none := by
  rw [alert?, h]

section Steps

variable {s s' : State} {a : Action}

/-- An Alert is heard from the step on in which its frame comes; nothing else is heard. -/
theorem heard_step (h : Echoed s) (hstep : Step s a s') :
    s'.heard = s.heard ++ (a.foreign.bind alert?).toList := by
  cases hstep with
  | arrive n frame hready hline =>
    obtain ⟨msg, hmsg, -⟩ := h.response n frame hline
    simp [State.heard, Receiver.alert, Action.foreign, hready, alert?_of_response hmsg]
  | other frame hready hforeign =>
    simp [State.heard, Receiver.alert, Action.foreign, hready]
  | decode n frame msg harrived hmsg =>
    simp [State.heard, Receiver.alert, Action.foreign, harrived, alert?_of_response hmsg]
  | alert answers frame msg harrived hmsg =>
    have halert : alert? frame = some msg := by rw [alert?, hmsg]
    simp [State.heard, Receiver.alert, Action.foreign, harrived, halert]
  | nothing answers frame harrived hmsg =>
    have halert : alert? frame = none := by rw [alert?, hmsg]
    simp [State.heard, Receiver.alert, Action.foreign, harrived, halert]
  | find _ _ hreceiver | discard _ hreceiver | push _ _ hreceiver =>
    simp [State.heard, Receiver.alert, Action.foreign, hreceiver]
  | _ => simp [State.heard, Action.foreign]

end Steps

/-- What is heard in a run are the Alerts in its foreign frames. -/
theorem heard_run {as : List Action} {s : State}
    (h : as.foldlM client.step client.init = some s) :
    s.heard = (as.filterMap Action.foreign).filterMap alert? := by
  have hstep : ∀ s a s', Inv s → client.step s a = some s' →
      s'.heard = s.heard ++ (a.foreign.bind alert?).toList :=
    fun _ _ _ hinv hstep => heard_step hinv.echoed (step_cases hstep)
  rw [inv_invariant.appends hstep inv_new h, List.filterMap_filterMap,
    List.filterMap_eq_flatMap_toList]
  rfl

section Undisturbed

/-- The receiver of a client that no foreign frame came to. -/
def Receiver.undisturbed : Receiver → Receiver
  | arrived none _ => ready
  | receiver => receiver

/-- The state of a client that no foreign frame came to. -/
def State.undisturbed (s : State) : State :=
  { s with alerts := [], receiver := s.receiver.undisturbed }

/-- What is more than the arrival of a frame from outside and the decoding of a frame. -/
def Action.ofCall : Action → Bool
  | other _ | decode => false
  | _ => true

variable {s s' : State} {a : Action}

theorem undisturbed_receiver {receiver : Receiver} (h : s.receiver = receiver) :
    s.undisturbed.receiver = receiver.undisturbed := by
  rw [State.undisturbed, h]

/-- A foreign frame in hand is forgotten. -/
theorem undisturbed_forget {frame : List UInt8} (h : s.receiver = .arrived none frame)
    (alerts : List Alert) :
    State.undisturbed { s with receiver := .ready, alerts := alerts } = s.undisturbed := by
  rw [State.undisturbed, State.undisturbed, h]
  rfl

/-- A frame that answers a command has a Response. -/
theorem Echoed.foreign (h : Echoed s) {answers : Option Nat} {frame : List UInt8}
    (harrived : s.receiver = .arrived answers frame)
    (hmsg : ∀ msg, MessageDecoder.decode frame ≠ some (.response msg)) : answers = none := by
  cases answers with
  | none => rfl
  | some n =>
    obtain ⟨msg, hresponse, -⟩ := h.arrived n frame harrived
    exact absurd hresponse (hmsg msg)

/-- A step is one of an undisturbed client, or of a foreign frame and not to be seen there. -/
theorem undisturbed_step (h : Echoed s) (hstep : Step s a s') :
    (a.ofCall = false ∧ s'.undisturbed = s.undisturbed) ∨
      (a.foreign = none ∧ Step s.undisturbed a s'.undisturbed) := by
  cases hstep with
  | transmit type hidle => exact .inr ⟨rfl, .transmit type hidle⟩
  | raise hidle => exact .inr ⟨rfl, .raise hidle⟩
  | register n hsent => exact .inr ⟨rfl, .register n hsent⟩
  | pop n reply rest hwaiting hqueue => exact .inr ⟨rfl, .pop n reply rest hwaiting hqueue⟩
  | timeout n hwaiting hqueue => exact .inr ⟨rfl, .timeout n hwaiting hqueue⟩
  | unregister n response hpopped => exact .inr ⟨rfl, .unregister n response hpopped⟩
  | answer n command frame hline hecho hresponse =>
    exact .inr ⟨rfl, .answer n command frame hline hecho hresponse⟩
  | arrive n frame hready hline =>
    exact .inr ⟨rfl, .arrive n frame (undisturbed_receiver hready) hline⟩
  | other frame hready hforeign =>
    refine .inl ⟨rfl, ?_⟩
    rw [State.undisturbed, State.undisturbed, hready]
    rfl
  | decode n frame msg harrived hmsg =>
    exact .inr ⟨rfl, .decode n frame msg (undisturbed_receiver harrived) hmsg⟩
  | alert answers frame msg harrived hmsg =>
    obtain rfl := h.foreign harrived (by simp [hmsg])
    exact .inl ⟨rfl, undisturbed_forget harrived (s.alerts ++ [msg])⟩
  | nothing answers frame harrived hmsg =>
    obtain rfl := h.foreign harrived (by simp [hmsg])
    exact .inl ⟨rfl, undisturbed_forget harrived s.alerts⟩
  | find reply job hdecoded hpending =>
    exact .inr ⟨rfl, .find reply job (undisturbed_receiver hdecoded) hpending⟩
  | discard reply hdecoded hpending =>
    exact .inr ⟨rfl, .discard reply (undisturbed_receiver hdecoded) hpending⟩
  | push reply job hfound =>
    exact .inr ⟨rfl, .push reply job (undisturbed_receiver hfound)⟩

/-- A call that ends at its timeout, with an alert, noise and another alert on the line. -/
def disturbedCall : List Action :=
  [.transmit (.read ⟨5⟩), .other [5, 3, 1, 7], .register, .decode, .other [9], .timeout, .decode,
    .unregister, .other [5, 0x82, 1, 0x2c, 5, 0xfe]]

theorem decode_noise : MessageDecoder.decode [9] = none := by
  have hget : InputCodec.getUint [9] = .ok (9, []) := rfl
  rw [MessageDecoder.decode, Base.decode_of_getUint hget]
  rfl

theorem decode_first : MessageDecoder.decode [5, 3, 1, 7] = some (.alert ⟨3, .u8 7⟩) := by
  rw [MessageDecoder.decode, Base.decode_alert]
  rfl

theorem disturbedCall_run : ∃ s, disturbedCall.foldlM client.step client.init = some s ∧
    s.alerts = [⟨3, .u8 7⟩] ∧ s.returned 0 = some none := by
  have hlast : isResponse [5, 0x82, 1, 0x2c, 5, 0xfe] = false := by
    rw [isResponse, MessageDecoder.decode, Base.decode_alert]
    rfl
  exact ⟨_, System.run_cons (enabled (.transmit (.read ⟨5⟩) rfl)) <|
    System.run_cons (enabled (.other _ rfl (by rw [isResponse, decode_first]))) <|
    System.run_cons (enabled (.register 0 rfl)) <|
    System.run_cons (enabled (.alert none _ _ rfl decode_first)) <|
    System.run_cons (enabled (.other _ rfl (by rw [isResponse, decode_noise]))) <|
    System.run_cons (enabled (.timeout 0 rfl rfl)) <|
    System.run_cons (enabled (.nothing none _ rfl decode_noise)) <|
    System.run_cons (enabled (.unregister 0 none rfl)) <|
    System.run_cons (enabled (.other _ rfl hlast)) rfl, rfl, rfl⟩

end Undisturbed

end Aloof.Ruby.Client
