import Aloof.Ruby.Message

namespace Aloof.Ruby

open Framework

inductive StationType where
  | client | server
  deriving DecidableEq

/-- A Hello or a HelloHello. -/
structure Hello where
  version : Nat
  features : Int
  stationType : StationType
  deriving DecidableEq

/-- A message of any class. -/
inductive AnyMessage (φ : Type := UInt32) where
  | hello (msg : Hello)
  | helloHello (msg : Hello)
  | command (msg : Command φ)
  | response (msg : Response φ)
  | alert (msg : Alert φ)
  deriving DecidableEq

/-- An instance that decode returned. -/
def Message.any : Message → AnyMessage
  | response msg => .response msg
  | alert msg => .alert msg

def Hello.tag : Nat := 0

def HelloHello.tag : Nat := 1

/-- HelloHello inherits the method, with a tag of its own. -/
def Hello.encode (tag : Nat) (self : Hello) : List UInt8 :=
  OutputCodec.putUint tag ++ OutputCodec.putUint self.version ++ OutputCodec.putU16 self.features ++
    match self.stationType with
    | .client => OutputCodec.putUint 0
    | .server => OutputCodec.putUint 1

/-- put_access_result is a method of the class Base, not of the instances of the response types. -/
def putAccessResult (_ : AccessResult) : Except Error (List UInt8) := .error .name

namespace ReadResponse

def tag : Nat := 1

def encode (self : ReadResponse) : Except Error (List UInt8) := do
  let result ← putAccessResult self.result
  let value := (self.value.map Base.putValue).getD []
  return OutputCodec.putUint tag ++ result ++ if self.result = .success then value else []

end ReadResponse

namespace WriteResponse

def tag : Nat := 0

def encode (self : WriteResponse) : Except Error (List UInt8) := do
  let result ← putAccessResult self.result
  return OutputCodec.putUint tag ++ result

end WriteResponse

def ResponseType.encode : ResponseType → Except Error (List UInt8)
  | write type => type.encode
  | read type => type.encode

namespace Response

def invokeField (self : Response) : Nat :=
  (self.invokeId &&& 0x7f) ||| (if self.confirmed then 0x80 else 0x00)

def encode (self : Response) : Except Error (List UInt8) := do
  let type ← self.type.encode
  return OutputCodec.putU8 tag ++ OutputCodec.putU8 self.invokeField ++ type

end Response

namespace Alert

def tag : Nat := 5

def encode (self : Alert) : List UInt8 :=
  OutputCodec.putUint tag ++ OutputCodec.putUint self.aid ++ Base.putValue self.value

end Alert

def AnyMessage.encode : AnyMessage → Except Error (List UInt8)
  | hello msg => .ok (msg.encode Hello.tag)
  | helloHello msg => .ok (msg.encode HelloHello.tag)
  | command msg => .ok msg.encode
  | response msg => msg.encode
  | alert msg => .ok msg.encode

section Floats

variable {φ ψ : Type} (f : φ → ψ)

def CommandType.map : CommandType φ → CommandType ψ
  | write type => .write ⟨type.oid, type.value.map f⟩
  | read type => .read type

def ResponseType.map : ResponseType φ → ResponseType ψ
  | write type => .write type
  | read type => .read ⟨type.result, type.value.map (Value.map f)⟩

def AnyMessage.map : AnyMessage φ → AnyMessage ψ
  | hello msg => .hello msg
  | helloHello msg => .helloHello msg
  | command msg => .command ⟨msg.confirmed, msg.invokeId, msg.type.map f⟩
  | response msg => .response ⟨msg.confirmed, msg.invokeId, msg.type.map f⟩
  | alert msg => .alert ⟨msg.aid, msg.value.map f⟩

end Floats

/-- encode of an instance, which holds a Float whole: put_float packs 32 bits of it. -/
def AnyMessage.encodeFloats (self : AnyMessage UInt64) : Except Error (List UInt8) :=
  (self.map Binary64.narrow).encode

/-- The instance that decode returns: get_float makes a Float of the 32 bits. -/
def MessageDecoder.decodeFloats (input : List UInt8) : Option (AnyMessage UInt64) :=
  (decode input).map fun msg => msg.any.map Binary32.widen

theorem Base.putTyped_float (v : UInt64) :
    putTyped ((Value.float v).map Binary64.narrow) = OutputCodec.putFloat v := rfl

theorem Base.getTyped_float :
    (do return (← getTyped .float).map Binary32.widen) =
      (do return Value.float (← InputCodec.getFloat)) := by
  funext s
  simp only [getTyped, InputCodec.getFloat, bind_assoc, pure_bind]
  rfl

end Aloof.Ruby
