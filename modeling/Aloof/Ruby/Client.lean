import Mathlib.Logic.Function.Basic
import Aloof.Framework.Transition
import Aloof.Ruby.Message

namespace Aloof.Ruby

open Framework

/-- A Response with the number of the command that the server made it for, which no code reads. -/
structure Reply where
  answers : Nat
  msg : Response
  deriving DecidableEq

namespace Client

/-- The place of the calling thread: between calls, after tx, in q.pop, and after q.pop. -/
inductive Caller where
  | idle
  | sent (n : Nat)
  | waiting (n : Nat)
  | popped (n : Nat) (response : Option Reply)
  deriving DecidableEq

/-- The place of the transport's thread: in recv, and in the block of on_rx with the frame, with a
decoded Response, and with the queue that it found. -/
inductive Receiver where
  | ready
  | arrived (answers : Option Nat) (frame : List UInt8)
  | decoded (reply : Reply)
  | found (reply : Reply) (job : Nat)
  deriving DecidableEq

/-- What is between the client and the server for one command. -/
inductive Line where
  | unused
  | command (frame : List UInt8)
  | response (frame : List UInt8)
  | delivered
  deriving DecidableEq

/-- Calls are named by their invoke ids, and each queue by the call that made it. The last three
fields are history: the frames that arrived before the call's wait ended, the Responses that had no
job, and what transport returned. -/
structure State where
  invokeId : Nat
  pending : Nat → Option Nat
  queue : Nat → List Reply
  caller : Caller
  receiver : Receiver
  line : Nat → Line
  alerts : List Alert
  onTime : Nat → Option (List UInt8)
  discarded : List Reply
  returned : Nat → Option (Option Reply)

def new : State where
  invokeId := 0
  pending := fun _ => none
  queue := fun _ => []
  caller := .idle
  receiver := .ready
  line := fun _ => .unused
  alerts := []
  onTime := fun _ => none
  discarded := []
  returned := fun _ => none

/-- The call in progress. -/
def Caller.call : Caller → Option Nat
  | idle => none
  | sent n | waiting n | popped n _ => some n

/-- The call whose queue is in @pending. -/
def Caller.registered : Caller → Option Nat
  | idle | sent _ => none
  | waiting n | popped n _ => some n

/-- The call whose wait has not ended. -/
def Caller.awaited : Caller → Option Nat
  | idle | popped _ _ => none
  | sent n | waiting n => some n

/-- The command that the frame in hand answers. -/
def Receiver.answers : Receiver → Option Nat
  | ready => none
  | arrived answers _ => answers
  | decoded reply | found reply _ => some reply.answers

section Calls

def nextInvokeId (s : State) : Nat × State :=
  (s.invokeId, { s with invokeId := s.invokeId + 1 })

/-- read or write with a known name, up to the tx of transport. confirmed is opts[:confirmed]||true,
which is always true. -/
def transmit (type : CommandType) (s : State) : Option State :=
  match s.caller with
  | .idle =>
    let (n, s) := nextInvokeId s
    let frame := Command.encode ⟨true, n, type⟩
    some { s with line := Function.update s.line n (.command frame), caller := .sent n }
  | _ => none

/-- read or write when encode raises: the invoke id is used up. -/
def raise (s : State) : Option State :=
  match s.caller with
  | .idle => some (nextInvokeId s).2
  | _ => none

/-- @pending[msg.invoke_id] = q, for a new queue. -/
def register (s : State) : Option State :=
  match s.caller with
  | .sent n =>
    some { s with
      queue := Function.update s.queue n []
      pending := Function.update s.pending n (some n)
      caller := .waiting n }
  | _ => none

/-- The end of TimeoutQueue#pop when there is something to shift. -/
def pop (s : State) : Option State :=
  match s.caller with
  | .waiting n =>
    match s.queue n with
    | [] => none
    | reply :: rest =>
      some { s with
        queue := Function.update s.queue n rest
        caller := .popped n (some reply) }
  | _ => none

/-- The end of TimeoutQueue#pop at end_time, when the queue is still empty. -/
def timeout (s : State) : Option State :=
  match s.caller with
  | .waiting n =>
    match s.queue n with
    | [] => some { s with caller := .popped n none }
    | _ :: _ => none
  | _ => none

/-- @pending.delete(msg.invoke_id), and the end of transport. -/
def unregister (s : State) : Option State :=
  match s.caller with
  | .popped n response =>
    some { s with
      pending := Function.update s.pending n none
      caller := .idle
      returned := Function.update s.returned n (some response) }
  | _ => none

end Calls

section Server

/-- The byte that follows the tag of a frame. -/
def invokeField (tag : Nat) (frame : List UInt8) : Option UInt8 :=
  match InputCodec.getUint frame with
  | .ok (t, field :: _) => if t = tag then some field else none
  | _ => none

/-- A Response with the invoke field of a command's frame. -/
def echoes (command response : List UInt8) : Bool :=
  match invokeField Command.tag command, invokeField Response.tag response with
  | some field, some field' => field == field'
  | _, _ => false

def isResponse (frame : List UInt8) : Bool :=
  match MessageDecoder.decode frame with
  | some (.response _) => true
  | _ => false

/-- The server answers a command, once. -/
def answer (n : Nat) (frame : List UInt8) (s : State) : Option State :=
  match s.line n with
  | .command command =>
    if echoes command frame && isResponse frame then
      some { s with line := Function.update s.line n (.response frame) }
    else none
  | _ => none

end Server

section OnRx

/-- The reader gets the answer to a command. -/
def arrive (n : Nat) (s : State) : Option State :=
  match s.receiver, s.line n with
  | .ready, .response frame =>
    some { s with
      receiver := .arrived (some n) frame
      line := Function.update s.line n .delivered
      onTime := if s.caller.awaited = some n then Function.update s.onTime n (some frame)
        else s.onTime }
  | _, _ => none

/-- The reader gets anything else: an Alert, or bytes that are no message. -/
def other (frame : List UInt8) (s : State) : Option State :=
  match s.receiver with
  | .ready => if isResponse frame then none else some { s with receiver := .arrived none frame }
  | _ => none

/-- decoder.decode(frame), and the case msg. -/
def decode (s : State) : Option State :=
  match s.receiver with
  | .arrived answers frame =>
    match MessageDecoder.decode frame with
    -- a Response answers a command, see other
    | some (.response msg) => answers.map fun n => { s with receiver := .decoded ⟨n, msg⟩ }
    | some (.alert msg) => some { s with receiver := .ready, alerts := s.alerts ++ [msg] }
    | none => some { s with receiver := .ready }
  | _ => none

/-- job = @pending[msg.invoke_id]. -/
def lookup (s : State) : Option State :=
  match s.receiver with
  | .decoded reply =>
    match s.pending reply.msg.invokeId with
    | some job => some { s with receiver := .found reply job }
    | none => some { s with receiver := .ready, discarded := reply :: s.discarded }
  | _ => none

/-- job.push(msg). -/
def push (s : State) : Option State :=
  match s.receiver with
  | .found reply job =>
    some { s with
      queue := Function.update s.queue job (s.queue job ++ [reply])
      receiver := .ready }
  | _ => none

end OnRx

inductive Action where
  | transmit (type : CommandType)
  | raise
  | register
  | pop
  | timeout
  | unregister
  | answer (n : Nat) (frame : List UInt8)
  | arrive (n : Nat)
  | other (frame : List UInt8)
  | decode
  | lookup
  | push
  deriving DecidableEq

def step (s : State) : Action → Option State
  | .transmit type => transmit type s
  | .raise => raise s
  | .register => register s
  | .pop => pop s
  | .timeout => timeout s
  | .unregister => unregister s
  | .answer n frame => answer n frame s
  | .arrive n => arrive n s
  | .other frame => other frame s
  | .decode => decode s
  | .lookup => lookup s
  | .push => push s

/-- One client with one calling thread, and a server. -/
def client : System State Action := ⟨new, step⟩

end Client

end Aloof.Ruby
