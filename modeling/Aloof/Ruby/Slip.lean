import Aloof.Ruby.Codec

namespace Aloof.Ruby

namespace Slip

/-- @transport. -/
inductive Transport where
  | slip | slipCrc16
  deriving DecidableEq

inductive ReaderState where
  | rx | escape
  deriving DecidableEq

/-- The variables of the reader thread. -/
structure Reader where
  buffer : List UInt8
  state : ReaderState
  deriving DecidableEq

def Reader.fresh : Reader := ⟨[], .rx⟩

def endChar : UInt8 := 192
def escapeChar : UInt8 := 219
def escapeEndChar : UInt8 := 220
def escapeEscapeChar : UInt8 := 221

-- checksum is that of a Digest::CRC16CCITT into which the bytes were put.
variable (checksum : List UInt8 → UInt16) (transport : Transport)

/-- The buffer, with its checksum if the transport has one. tx appends it to the String that it was
given; every call of tx is taken to have a String of its own. -/
def protect (buffer : List UInt8) : List UInt8 :=
  match transport with
  | .slipCrc16 => buffer ++ pack 2 (checksum buffer).toNat
  | .slip => buffer

def txByte (c : UInt8) : List UInt8 :=
  if c = endChar then [escapeChar, escapeEndChar]
  else if c = escapeChar then [escapeChar, escapeEscapeChar]
  else [c]

/-- What is written to the port for a String of the call's own. -/
def tx (buffer : List UInt8) : List UInt8 :=
  [endChar] ++ (protect checksum transport buffer).flatMap txByte ++ [endChar]

/-- The argument of the call of @rx_handler at an END_CHAR. -/
def received (buffer : List UInt8) : Option (List UInt8) :=
  match transport with
  | .slipCrc16 =>
    if checksum buffer = 0 then
      -- slice(0..-3) takes all but the last two bytes
      if buffer.length > 2 then
        if buffer.length > 0 then some (buffer.take (buffer.length - 2)) else none
      else none
    else none
  | .slip => if buffer.length > 0 then some buffer else none

/-- What the reader does with a byte from getbyte. -/
def receive (self : Reader) (c : UInt8) : Reader × Option (List UInt8) :=
  match self.state with
  | .rx =>
    if c = escapeChar then ({ self with state := .escape }, none)
    else if c = endChar then (.fresh, received checksum transport self.buffer)
    else ({ self with buffer := self.buffer ++ [c] }, none)
  | .escape =>
    if c = escapeEscapeChar then (⟨self.buffer ++ [escapeChar], .rx⟩, none)
    else if c = escapeEndChar then (⟨self.buffer ++ [endChar], .rx⟩, none)
    else if c = escapeChar then ({ self with state := .escape }, none)
    else (⟨self.buffer ++ [c], .rx⟩, none)

/-- The reader loop over these bytes, with the calls of the handler. -/
def read : Reader → List UInt8 → Reader × List (List UInt8)
  | self, [] => (self, [])
  | self, c :: cs =>
    let r := receive checksum transport self c
    let t := read r.1 cs
    (t.1, r.2.toList ++ t.2)

/-- Messages that are sent one after the other. -/
def txAll (messages : List (List UInt8)) : List UInt8 :=
  (messages.map (tx checksum transport)).flatten

end Slip

end Aloof.Ruby
