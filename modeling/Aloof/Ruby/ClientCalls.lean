import Aloof.Ruby.Client

namespace Aloof.Ruby.Client

/-- The exceptions that a call raises; argument stands for what encode raises at a value that the
object's type does not take. -/
inductive Exception where
  | unknownOid | accessDenied | authenticationRequired | argumentError | temporaryFailure
  | applicationError
  | timeoutError
  | rangeError (text : String)
  | runtimeError (text : String)
  | argument
  deriving DecidableEq

/-- What transport returns, by the classes that a call tells apart. -/
inductive Returned where
  | response (msg : Response)
  | error
  | nil
  | other
  deriving DecidableEq

structure ObjectDef where
  oid : Nat
  name : String
  type : DataType

/-- @defs. -/
abbrev ObjectTable := List (String × ObjectDef)

def ObjectTable.lookupName (table : ObjectTable) (name : String) : Option ObjectDef :=
  table.lookup name

/-- ACCESS_ERROR_TO_EXCEPTION. -/
def accessErrorToException : Reason → Exception
  | .unkownOid => .unknownOid
  | .accessDenied => .accessDenied
  | .authenticationRequired => .authenticationRequired
  | .argumentError => .argumentError
  | .temporaryFailure => .temporaryFailure
  | .applicationError => .applicationError

/-- The case resp of read. -/
def readResult : Returned → Except Exception (Option Value)
  | .response msg =>
    match msg.type with
    | .read type =>
      match type.result with
      | .failure reason => .error (accessErrorToException reason)
      | .success => .ok type.value
    | .write _ => .error (.runtimeError "unexpected response type")
  | .error => .error (.runtimeError "device reports error")
  | .nil => .error .timeoutError
  | .other => .error (.runtimeError "unexpected response")

/-- The case resp of write: the branches of a Response and of an Error are empty. -/
def writeResult : Returned → Except Exception Unit
  | .response _ => .ok ()
  | .error => .ok ()
  | .nil => .error .timeoutError
  | .other => .error (.runtimeError "unexpected response")

section Calls

variable (table : ObjectTable) (name : String) (invokeId : Nat) (transport : Command → Returned)

def read : Except Exception (Option Value) :=
  match table.lookupName name with
  | none => .error (.rangeError (name ++ " is an unknown object"))
  | some obj => readResult (transport ⟨true, invokeId, .read ⟨obj.oid⟩⟩)

/-- The argument is given by what it is as a value of each type that takes it. -/
def write (value : DataType → Option Value) : Except Exception Unit :=
  match table.lookupName name with
  | none => .error (.rangeError (name ++ " is an unknown object"))
  | some obj =>
    match value obj.type with
    | none => .error .argument
    | some value => writeResult (transport ⟨true, invokeId, .write ⟨obj.oid, value⟩⟩)

end Calls

section Verdict

/-- A call returns normally only if the device reports a success, raises what stands for the reason
of a failure, and raises at an Error. -/
structure ReportsVerdict {α : Type} (verdict : ResponseType → Option AccessResult)
    (resp : Returned) (result : Except Exception α) : Prop where
  normal : ∀ v, result = .ok v → ∃ msg, resp = .response msg ∧ verdict msg.type = some .success
  failure : ∀ msg reason, resp = .response msg → verdict msg.type = some (.failure reason) →
    result = .error (accessErrorToException reason)
  error : resp = .error → ∃ e, result = .error e

def writeVerdict : ResponseType → Option AccessResult
  | .write type => some type.result
  | .read _ => none

variable {table : ObjectTable} {name : String} {obj : ObjectDef}

/-- A call that raises may do so at anything but a failure, which has its own exception. -/
theorem reports_raised {α : Type} {verdict : ResponseType → Option AccessResult} {resp : Returned}
    {e : Exception} (h : ∀ msg reason, resp = .response msg →
      verdict msg.type = some (.failure reason) → e = accessErrorToException reason) :
    ReportsVerdict verdict resp (.error e : Except Exception α) where
  normal v hv := by cases hv
  failure msg reason hmsg hverdict := congrArg Except.error (h msg reason hmsg hverdict)
  error _ := ⟨e, rfl⟩

/-- A call that returns has a success to report. -/
theorem reports_returned {α : Type} {verdict : ResponseType → Option AccessResult}
    {msg : Response} (h : verdict msg.type = some .success) (v : α) :
    ReportsVerdict verdict (.response msg) (.ok v) where
  normal _ _ := ⟨msg, rfl, h⟩
  failure msg' reason hmsg hverdict := by
    cases hmsg
    cases h.symm.trans hverdict
  error herror := by cases herror

/-- Of the outcomes of a write, a failure, an Error and a response of another type pass for a
success. -/
theorem writeResult_reports (resp : Returned) :
    ReportsVerdict writeVerdict resp (writeResult resp) ↔
      resp ≠ .error ∧ ∀ msg, resp = .response msg → msg.type = .write ⟨.success⟩ := by
  constructor
  · intro h
    constructor
    · intro heq
      subst heq
      obtain ⟨e, he⟩ := h.error rfl
      cases he
    · intro msg heq
      subst heq
      obtain ⟨_, ⟨⟩, hverdict⟩ := h.normal () rfl
      cases htype : msg.type with
      | write type =>
        rw [htype] at hverdict
        exact congrArg ResponseType.write (congrArg WriteResponse.mk (Option.some.inj hverdict))
      | read type =>
        rw [htype] at hverdict
        cases hverdict
  · intro h
    obtain ⟨herror, hsuccess⟩ := h
    cases resp with
    | response msg => exact reports_returned (by rw [hsuccess msg rfl]; rfl) ()
    | error => exact absurd rfl herror
    | _ =>
      apply reports_raised
      intro _ reason h
      cases h

theorem write_eq (hobj : table.lookupName name = some obj) (invokeId : Nat)
    (transport : Command → Returned) {value : DataType → Option Value} {v : Value}
    (hv : value obj.type = some v) : write table name invokeId transport value =
      writeResult (transport ⟨true, invokeId, .write ⟨obj.oid, v⟩⟩) := by
  rw [write, hobj]
  dsimp only
  rw [hv]

end Verdict

end Aloof.Ruby.Client
