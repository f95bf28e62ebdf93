import Mathlib.Tactic.SplitIfs
import Aloof.Ruby.Client
import Aloof.Ruby.MessageProof

namespace Aloof.Ruby.Client

open Framework

/-- What each action can do. -/
inductive Step (s : State) : Action → State → Prop where
  | transmit (type : CommandType) (idle : s.caller = .idle) :
    Step s (.transmit type) { s with
      invokeId := s.invokeId + 1
      line := Function.update s.line s.invokeId
        (.command (Command.encode ⟨true, s.invokeId, type⟩))
      caller := .sent s.invokeId }
  | raise (idle : s.caller = .idle) : Step s .raise { s with invokeId := s.invokeId + 1 }
  | register (n : Nat) (sent : s.caller = .sent n) :
    Step s .register { s with
      queue := Function.update s.queue n []
      pending := Function.update s.pending n (some n)
      caller := .waiting n }
  | pop (n : Nat) (reply : Reply) (rest : List Reply) (waiting : s.caller = .waiting n)
      (queue : s.queue n = reply :: rest) :
    Step s .pop { s with
      queue := Function.update s.queue n rest
      caller := .popped n (some reply) }
  | timeout (n : Nat) (waiting : s.caller = .waiting n) (queue : s.queue n = []) :
    Step s .timeout { s with caller := .popped n none }
  | unregister (n : Nat) (response : Option Reply) (popped : s.caller = .popped n response) :
    Step s .unregister { s with
      pending := Function.update s.pending n none
      caller := .idle
      returned := Function.update s.returned n (some response) }
  | answer (n : Nat) (command frame : List UInt8) (line : s.line n = .command command)
      (echo : echoes command frame = true) (response : isResponse frame = true) :
    Step s (.answer n frame) { s with line := Function.update s.line n (.response frame) }
  | arrive (n : Nat) (frame : List UInt8) (ready : s.receiver = .ready)
      (line : s.line n = .response frame) :
    Step s (.arrive n) { s with
      receiver := .arrived (some n) frame
      line := Function.update s.line n .delivered
      onTime := if s.caller.awaited = some n then Function.update s.onTime n (some frame)
        else s.onTime }
  | other (frame : List UInt8) (ready : s.receiver = .ready) (foreign : isResponse frame = false) :
    Step s (.other frame) { s with receiver := .arrived none frame }
  | decode (n : Nat) (frame : List UInt8) (msg : Response)
      (arrived : s.receiver = .arrived (some n) frame)
      (message : MessageDecoder.decode frame = some (.response msg)) :
    Step s .decode { s with receiver := .decoded ⟨n, msg⟩ }
  | alert (answers : Option Nat) (frame : List UInt8) (msg : Alert)
      (arrived : s.receiver = .arrived answers frame)
      (message : MessageDecoder.decode frame = some (.alert msg)) :
    Step s .decode { s with receiver := .ready, alerts := s.alerts ++ [msg] }
  | nothing (answers : Option Nat) (frame : List UInt8)
      (arrived : s.receiver = .arrived answers frame)
      (message : MessageDecoder.decode frame = none) :
    Step s .decode { s with receiver := .ready }
  | find (reply : Reply) (job : Nat) (decoded : s.receiver = .decoded reply)
      (pending : s.pending reply.msg.invokeId = some job) :
    Step s .lookup { s with receiver := .found reply job }
  | discard (reply : Reply) (decoded : s.receiver = .decoded reply)
      (pending : s.pending reply.msg.invokeId = none) :
    Step s .lookup { s with receiver := .ready, discarded := reply :: s.discarded }
  | push (reply : Reply) (job : Nat) (found : s.receiver = .found reply job) :
    Step s .push { s with
      queue := Function.update s.queue job (s.queue job ++ [reply])
      receiver := .ready }

theorem step_cases {s s' : State} {a : Action} (h : client.step s a = some s') : Step s a s' := by
  change step s a = some s' at h
  cases a with
  | transmit type =>
    simp only [step, transmit] at h
    split at h
    next hidle => cases h; exact .transmit type hidle
    next => cases h
  | raise =>
    simp only [step, raise] at h
    split at h
    next hidle => cases h; exact .raise hidle
    next => cases h
  | register =>
    simp only [step, register] at h
    split at h
    next n hsent => cases h; exact .register n hsent
    next => cases h
  | pop =>
    simp only [step, pop] at h
    split at h
    next n hwaiting =>
      split at h
      next => cases h
      next reply rest hqueue => cases h; exact .pop n reply rest hwaiting hqueue
    next => cases h
  | timeout =>
    simp only [step, timeout] at h
    split at h
    next n hwaiting =>
      split at h
      next hqueue => cases h; exact .timeout n hwaiting hqueue
      next => cases h
    next => cases h
  | unregister =>
    simp only [step, unregister] at h
    split at h
    next n response hpopped => cases h; exact .unregister n response hpopped
    next => cases h
  | answer n frame =>
    simp only [step, answer] at h
    split at h
    next command hline =>
      split at h
      next hframe =>
        cases h
        rw [Bool.and_eq_true] at hframe
        exact .answer n command frame hline hframe.1 hframe.2
      next => cases h
    next => cases h
  | arrive n =>
    simp only [step, arrive] at h
    split at h
    next frame hready hline => cases h; exact .arrive n frame hready hline
    next => cases h
  | other frame =>
    simp only [step, other] at h
    split at h
    next hready =>
      split at h
      next => cases h
      next hforeign =>
        cases h
        exact .other frame hready (Bool.eq_false_iff.mpr hforeign)
    next => cases h
  | decode =>
    simp only [step, decode] at h
    split at h
    next answers frame harrived =>
      split at h
      next msg hmsg =>
        cases answers with
        | none => cases h
        | some n => cases h; exact .decode n frame msg harrived hmsg
      next msg hmsg => cases h; exact .alert answers frame msg harrived hmsg
      next hmsg => cases h; exact .nothing answers frame harrived hmsg
    next => cases h
  | lookup =>
    simp only [step, lookup] at h
    split at h
    next reply hdecoded =>
      split at h
      next job hpending => cases h; exact .find reply job hdecoded hpending
      next hpending => cases h; exact .discard reply hdecoded hpending
    next => cases h
  | push =>
    simp only [step, push] at h
    split at h
    next reply job hfound => cases h; exact .push reply job hfound
    next => cases h

theorem enabled {s s' : State} {a : Action} (h : Step s a s') :
    client.step s a = some s' := by
  change step s a = some s'
  cases h with
  | transmit type hidle => simp [step, transmit, nextInvokeId, hidle]
  | raise hidle => simp [step, raise, nextInvokeId, hidle]
  | register n hsent => simp [step, register, hsent]
  | pop n reply rest hwaiting hqueue => simp [step, pop, hwaiting, hqueue]
  | timeout n hwaiting hqueue => simp [step, timeout, hwaiting, hqueue]
  | unregister n response hpopped => simp [step, unregister, hpopped]
  | answer n command frame hline hecho hresponse => simp [step, answer, hline, hecho, hresponse]
  | arrive n frame hready hline => simp [step, arrive, hready, hline]
  | other frame hready hforeign => simp [step, other, hready, hforeign]
  | decode n frame msg harrived hmsg => simp [step, decode, harrived, hmsg]
  | alert answers frame msg harrived hmsg => simp [step, decode, harrived, hmsg]
  | nothing answers frame harrived hmsg => simp [step, decode, harrived, hmsg]
  | find reply job hdecoded hpending => simp [step, lookup, hdecoded, hpending]
  | discard reply hdecoded hpending => simp [step, lookup, hdecoded, hpending]
  | push reply job hfound => simp [step, push, hfound]

theorem invokeField_encode (c : Command) :
    invokeField Command.tag c.encode = some (invokeByte c.confirmed c.invokeId) := by
  rw [invokeField, Command.encode_eq, InputCodec.getUint_small (by decide)]
  rfl

theorem echoes_reply (n : Nat) (type : CommandType) (tl : List UInt8) :
    echoes (Command.encode ⟨true, n, type⟩) (4 :: invokeByte true n :: tl) = true := by
  have hfield : invokeField Response.tag (4 :: invokeByte true n :: tl) =
      some (invokeByte true n) := by
    rw [invokeField, InputCodec.getUint_small (by decide)]
    rfl
  rw [echoes, invokeField_encode, hfield]
  simp

theorem invokeField_eq_some {tag : Nat} {frame : List UInt8} {field : UInt8}
    (h : invokeField tag frame = some field) :
    ∃ rest, InputCodec.getUint frame = .ok (tag, field :: rest) := by
  simp only [invokeField] at h
  split at h
  next t field' rest hget =>
    split_ifs at h with htag
    cases h
    exact ⟨rest, htag ▸ hget⟩
  next => cases h

/-- A Response that echoes a command's frame has the command's invoke id modulo 128. -/
theorem echoes_invokeId {c : Command} {frame : List UInt8} {msg : Response}
    (h : echoes c.encode frame = true)
    (hmsg : MessageDecoder.decode frame = some (.response msg)) :
    msg.invokeId = c.invokeId % 128 := by
  rw [echoes, invokeField_encode] at h
  split at h
  next field field' hfield hfield' =>
    cases hfield
    rw [beq_iff_eq] at h
    subst h
    obtain ⟨rest, hget⟩ := invokeField_eq_some hfield'
    rw [MessageDecoder.decode, Base.decode_of_getUint hget] at hmsg
    split at hmsg
    next message r hrun =>
      subst hmsg
      rw [Response.decode_invokeId hrun, invokeByte_and]
    next => cases hmsg
  next => cases h

end Aloof.Ruby.Client
