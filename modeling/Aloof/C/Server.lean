import Aloof.C.Data
import Aloof.C.StreamRules

namespace Aloof.C

inductive MessageType where
  | hello | helloHello | error | command | response | alert
  deriving DecidableEq

def messageTypeCode : MessageType → UInt8
  | .hello => 0
  | .helloHello => 1
  | .error => 2
  | .command => 3
  | .response => 4
  | .alert => 5

inductive CommandType where
  | write | read
  deriving DecidableEq

def commandTypeCode : CommandType → UInt8
  | .write => 0
  | .read => 1

/-- enum aloof_response_type. -/
def responseTypeCode : CommandType → UInt8
  | .write => 0
  | .read => 1

inductive Station where
  | client | server
  deriving DecidableEq

def stationCode : Station → UInt8
  | .client => 0
  | .server => 1

inductive AccessError where
  | unknown | access | authentication | argument | temporary | application
  deriving DecidableEq

def accessErrorCode : AccessError → UInt32
  | .unknown => 0
  | .access => 1
  | .authentication => 2
  | .argument => 3
  | .temporary => 4
  | .application => 5

/-- struct aloof_message_hello. -/
structure Hello where
  station : Station
  version : UInt32
  features : UInt32
  deriving DecidableEq

/-- What a read handler returns and stores: error is `none` when it leaves *error alone. -/
structure ReadResult (σ : Type) where
  verdict : Bool
  error : Option AccessError
  app : σ
  out : Stream

/-- The data argument is a pointer, and the value's string member points on to the input. -/
structure WriteResult (σ : Type) where
  verdict : Bool
  error : Option AccessError
  app : σ
  data : DataRx
  inp : Stream

/-- A handler runs in a state of the application. -/
abbrev ReadFn (σ : Type) := σ → UInt32 → Stream → ReadResult σ

abbrev WriteFn (σ : Type) := σ → UInt32 → DataRx → Stream → WriteResult σ

/-- struct aloof_server; a NULL handler is `none`. -/
structure Server (σ : Type) where
  version : UInt32
  features : UInt32
  read : Option (ReadFn σ)
  write : Option (WriteFn σ)

def Server.init {σ : Type} (read : Option (ReadFn σ)) (write : Option (WriteFn σ)) : Server σ :=
  ⟨0, 0, read, write⟩

/-- What the uninitialised locals of aloof_server_process hold on entry. accessError is the storage
of the enumeration, scratch is the buffer[1] of the varint reader. -/
structure Locals where
  messageType : UInt8
  commandType : UInt8
  invokeField : UInt8
  oid : UInt32
  accessError : UInt32
  msg : Hello
  data : DataRx
  scratch : UInt8

inductive Call where
  | write (oid : UInt32) (data : DataRx) (inp : Stream)
  | read (oid : UInt32) (out : Stream)

/-- What a run of aloof_server_process leaves behind, with the handler calls it made. -/
structure Outcome (σ : Type) where
  app : σ
  inp : Stream
  out : Stream
  calls : List Call

namespace Server

variable {σ : Type}

def isConfirmed (invokeField : UInt8) : Bool := (invokeField &&& 0x80) > 0

def stations : List Station := [.client, .server]

def getHello (scratch : UInt8) : Getter Hello := do
  let station ← Oer.getU8
  match stations[station.toNat]? with
  | none => Getter.fail
  | some station =>
    let version ← Oer.getUint scratch
    let features ← Oer.getU32
    return ⟨station, version, features⟩

/-- The value of *error after a handler returned false. -/
def errorByte (loc : Locals) (error : Option AccessError) : UInt8 :=
  ((error.map accessErrorCode).getD loc.accessError).toUInt8

/-- ALOOF_COMMAND_TYPE_WRITE, once the oid and the data are read. -/
def respondWrite (srv : Server σ) (loc : Locals) (app : σ) (invokeField : UInt8) (oid : UInt32)
    (data : DataRx) (inp out : Stream) : Outcome σ :=
  let out := (Oer.putU8 (messageTypeCode .response)).void out
  let out := (Oer.putU8 invokeField).void out
  let out := (Oer.putU8 (responseTypeCode .write)).void out
  let offset := inp.tell
  let after : Outcome σ × DataRx :=
    match srv.write with
    | none =>
      let out := (Oer.putU8 1).void out
      let out := (Oer.putU8 (accessErrorCode .unknown).toUInt8).void out
      (⟨app, inp, out, []⟩, data)
    | some write =>
      let w := write app oid data inp
      let out :=
        if w.verdict then (Oer.putU8 0).void out
        else (Oer.putU8 (errorByte loc w.error)).void ((Oer.putU8 1).void out)
      (⟨w.app, w.inp, out, [.write oid data inp]⟩, w.data)
  match after.2.string? with
  | some s =>
    if after.1.inp.tell ≠ offset + s.size then
      { after.1 with inp := (after.1.inp.seekSet (offset + s.size)).2 }
    else after.1
  | none => after.1

def processWrite (srv : Server σ) (loc : Locals) (app : σ) (invokeField : UInt8)
    (inp out : Stream) : Outcome σ :=
  let oid := Oer.getUint loc.scratch inp
  if oid.1.isSome then
    let data := Data.get loc.scratch oid.2
    if data.1.isSome then
      respondWrite srv loc app invokeField (oid.1.getD loc.oid) (data.1.getD loc.data) data.2 out
    else ⟨app, data.2, out, []⟩
  else ⟨app, oid.2, out, []⟩

/-- ALOOF_COMMAND_TYPE_READ, once the oid is read. -/
def respondRead (srv : Server σ) (loc : Locals) (app : σ) (invokeField : UInt8) (oid : UInt32)
    (inp out : Stream) : Outcome σ :=
  let out := (Oer.putU8 (messageTypeCode .response)).void out
  let out := (Oer.putU8 invokeField).void out
  let out := (Oer.putU8 (responseTypeCode .read)).void out
  let offset := out.tell
  let out := (Oer.putU8 0).void out
  match srv.read with
  | none =>
    let out := (Oer.putU8 1).void out
    let out := (Oer.putU8 (accessErrorCode .unknown).toUInt8).void out
    ⟨app, inp, out, []⟩
  | some read =>
    let r := read app oid out
    let after :=
      if r.verdict then r.out
      else
        let rolledBack := (r.out.seekSet offset).2
        (Oer.putU8 (errorByte loc r.error)).void ((Oer.putU8 1).void rolledBack)
    ⟨r.app, inp, after, [.read oid out]⟩

def processRead (srv : Server σ) (loc : Locals) (app : σ) (invokeField : UInt8)
    (inp out : Stream) : Outcome σ :=
  let oid := Oer.getUint loc.scratch inp
  if oid.1.isSome then
    respondRead srv loc app invokeField (oid.1.getD loc.oid) oid.2 out
  else ⟨app, oid.2, out, []⟩

/-- The switch on the command type. -/
def processBody (srv : Server σ) (loc : Locals) (app : σ) (invokeField : UInt8)
    (inp out : Stream) : Outcome σ :=
  let command := Oer.getU8 inp
  let commandType := command.1.getD loc.commandType
  if command.1.isSome then
    if commandType = commandTypeCode .write then
      processWrite srv loc app invokeField command.2 out
    else if commandType = commandTypeCode .read then
      processRead srv loc app invokeField command.2 out
    else ⟨app, command.2, out, []⟩
  else ⟨app, command.2, out, []⟩

/-- ALOOF_MESSAGE_TYPE_HELLO. -/
def processHello (srv : Server σ) (loc : Locals) (app : σ) (inp out : Stream) : Outcome σ :=
  let msg := getHello loc.scratch inp
  if msg.1.isSome then
    let out := (Oer.putU8 (messageTypeCode .helloHello)).void out
    let out := (Oer.putU8 (stationCode .server)).void out
    let out := (Oer.putUint srv.version).void out
    let out := (Oer.putU32 srv.features).void out
    ⟨app, msg.2, out, []⟩
  else ⟨app, msg.2, out, []⟩

/-- ALOOF_MESSAGE_TYPE_COMMAND. The invoke field is looked at once more at the end, also when
nothing was stored in it. -/
def processCommand (srv : Server σ) (loc : Locals) (app : σ) (startOffset : UInt32)
    (inp out : Stream) : Outcome σ :=
  let invoke := Oer.getU8 inp
  let invokeField := invoke.1.getD loc.invokeField
  let result :=
    if invoke.1.isSome then processBody srv loc app invokeField invoke.2 out
    else ⟨app, invoke.2, out, []⟩
  if !isConfirmed invokeField then
    { result with out := (result.out.seekSet startOffset).2 }
  else result

def process (srv : Server σ) (loc : Locals) (app : σ) (inp out : Stream) : Outcome σ :=
  let startOffset := inp.tell
  let message := Oer.getU8 inp
  let messageType := message.1.getD loc.messageType
  if message.1.isSome then
    if messageType = messageTypeCode .hello then processHello srv loc app message.2 out
    else if messageType = messageTypeCode .command then
      processCommand srv loc app startOffset message.2 out
    else ⟨app, message.2, out, []⟩
  else ⟨app, message.2, out, []⟩

end Server

end Aloof.C
