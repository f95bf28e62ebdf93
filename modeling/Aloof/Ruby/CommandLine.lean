import Aloof.Ruby.ObjectTable

namespace Aloof.Ruby

open Client (ObjectTable ObjectDef Returned)

namespace TerminalType

/-- The type is that of the object; of the values only a String has bytes. -/
def toTerminalAs (floats : FloatText) (type : DataType) (value : Option Value) :
    Except TerminalError (List UInt8) :=
  match type, value with
  | .blob, some (.string v) | .blob, some (.blob v) => .ok (toTerminal floats (.blob v))
  | .blob, _ => .error .noMethodError
  | _, some value => .ok (toS floats value)
  | _, none => .ok []

/-- The argument may be nil, which has to_i and to_f. -/
def fromTerminalArg (floats : FloatText) (type : DataType) :
    Option (List UInt8) → Except TerminalError Value
  | some value => fromTerminal floats type value
  | none =>
    match type with
    | .bool | .blob => .error .noMethodError
    | .u8 => .ok (.u8 0)
    | .u16 => .ok (.u16 0)
    | .u32 => .ok (.u32 0)
    | .u64 => .ok (.u64 0)
    | .i8 => .ok (.i8 0)
    | .i16 => .ok (.i16 0)
    | .i32 => .ok (.i32 0)
    | .i64 => .ok (.i64 0)
    | .float => .ok (.float 0)
    | .double => .ok (.double 0)
    | .nil | .string => .error .runtimeError

/-- What is accepted is a value of the type, which is neither nil nor one with bytes. -/
theorem fromTerminalArg_type {floats : FloatText} {type : DataType} {arg : Option (List UInt8)}
    {value : Value} (h : fromTerminalArg floats type arg = .ok value) :
    value.type = type ∧ type ∉ [DataType.nil, .string, .blob] := by
  have hscalar : type ∉ [DataType.nil, .string, .blob] := by
    rintro htype
    simp only [List.mem_cons, List.not_mem_nil, or_false] at htype
    rcases htype with rfl | rfl | rfl <;> cases arg <;> cases h
  refine ⟨?_, hscalar⟩
  cases arg with
  | none => cases type <;> cases h <;> rfl
  | some text =>
    change fromTerminal floats type text = _ at h
    cases type
    case bool =>
      simp only [fromTerminal] at h
      split_ifs at h <;> cases h <;> rfl
    all_goals cases h <;> rfl

end TerminalType

namespace CommandLine

/-- ARGV; what is missing is nil. -/
inductive Argv where
  | read (name : Option String)
  | write (name : Option String) (value : Option (List UInt8))

/-- What puts is given: a line for STDOUT, or one for STDERR. -/
inductive Printed where
  | line (text : List UInt8)
  | unknownObject
  | timeout
  | raised (e : Client.Exception)
  | refused (e : TerminalError)
  | nothing

section Run

variable (floats : FloatText) (table : ObjectTable)

/-- lookup_name, which is given ARGV[1]. -/
def lookup (name : Option String) : Option ObjectDef := name.bind table.lookupName

/-- The block of the session; the client is new, so its first invoke id is 0. -/
def run (transport : Command → Returned) : Argv → Printed
  | .read name =>
    match lookup table name with
    | none => .unknownObject
    | some obj =>
      match Client.read table obj.name 0 transport with
      | .error .timeoutError => .timeout
      | .error e => .raised e
      | .ok value =>
        match TerminalType.toTerminalAs floats obj.type value with
        | .ok text => .line text
        | .error e => .refused e
  | .write name value =>
    match lookup table name with
    | none => .unknownObject
    | some obj =>
      match TerminalType.fromTerminalArg floats obj.type value with
      | .error e => .refused e
      | .ok value =>
        -- the client looks the same object up again
        match Client.write table obj.name 0 transport (fun _ => some value) with
        | .error e => .raised e
        | .ok _ => .nothing

/-- The command that transport is given, if there is one. -/
def request : Argv → Option CommandType
  | .read name => do
    let obj ← lookup table name
    let obj ← table.lookupName obj.name
    return .read ⟨obj.oid⟩
  | .write name value => do
    let obj ← lookup table name
    let value ← (TerminalType.fromTerminalArg floats obj.type value).toOption
    let obj ← table.lookupName obj.name
    return .write ⟨obj.oid, value⟩

theorem run_congr (argv : Argv) {transport transport' : Command → Returned}
    (h : ∀ type, request floats table argv = some type →
      transport ⟨true, 0, type⟩ = transport' ⟨true, 0, type⟩) :
    run floats table transport argv = run floats table transport' argv := by
  cases argv with
  | read name =>
    cases hobj : lookup table name with
    | none => simp only [run, hobj]
    | some obj =>
      cases hname : table.lookupName obj.name with
      | none => simp only [run, hobj, Client.read, hname]
      | some obj' =>
        have htransport := h (.read ⟨obj'.oid⟩) (by simp [request, hobj, hname])
        simp only [run, hobj, Client.read, hname, htransport]
  | write name arg =>
    cases hobj : lookup table name with
    | none => simp only [run, hobj]
    | some obj =>
      cases hvalue : TerminalType.fromTerminalArg floats obj.type arg with
      | error e => simp only [run, hobj, hvalue]
      | ok value =>
        cases hname : table.lookupName obj.name with
        | none => simp only [run, hobj, hvalue, Client.write, hname]
        | some obj' =>
          have htransport := h (.write ⟨obj'.oid, value⟩)
            (by simp [request, hobj, hvalue, hname, Except.toOption])
          simp only [run, hobj, hvalue, Client.write, hname, htransport]

end Run

end CommandLine

end Aloof.Ruby
