import Aloof.Agreement.Integer
import Aloof.Agreement.RemoteRuns
import Aloof.Ruby.CommandLine

namespace Aloof.Agreement

open Framework C C.TestServer
open Ruby (FloatText)
open Ruby.Client (ObjectTable Returned Json)
open Ruby.CommandLine (Argv Printed lookup)
open Ruby.TerminalType (toTerminalAs fromTerminalArg fromTerminalArg_type zeroText)

/-- What becomes of the command of a session. -/
inductive Delivery where
  -- the client gets the whole reply before the timeout
  | answered
  -- the server does it, and the client gets no reply before the timeout
  | late
  | lost
  deriving DecidableEq

structure Session where
  argv : Argv
  left : Leftover
  delivery : Delivery

namespace Session

variable (floats : FloatText) (table : ObjectTable)

/-- The server's pass for a command. -/
def exchange (left : Leftover) (s : StateHolder) (c : Sent) : Option (List UInt8) × StateHolder :=
  if h : c.frame.length ≤ 1024 then serve left s ⟨c.frame, h⟩ else (none, s)

/-- The client waits for a Response with its invoke id. The frame is the whole reply: that recv cuts
it is left out. -/
def received (frame : Option (List UInt8)) : Returned :=
  match frame.bind Ruby.MessageDecoder.decode with
  | some (.response msg) => if msg.invokeId = 0 then .response msg else .nil
  | _ => .nil

/-- The command that the server does. -/
def sent? (self : Session) : Option Sent :=
  if self.delivery = .lost then none
  else (Ruby.CommandLine.request floats table self.argv).map (Sent.mk 0)

def run (self : Session) (s : StateHolder) : Printed × StateHolder :=
  let transport (cmd : Ruby.Command) : Returned :=
    if self.delivery = .answered then received (exchange self.left s ⟨0, cmd.type⟩).1 else .nil
  (Ruby.CommandLine.run floats table transport self.argv,
    match self.sent? floats table with
    | some c => (exchange self.left s c).2
    | none => s)

end Session

/-- The sessions of some commands, from the start of the server on. -/
def sessions (floats : FloatText) (table : ObjectTable) (runs : List Session) :
    List Printed × StateHolder :=
  Framework.answers (fun s i => i.run floats table s) state runs

section Values

/-- The low bits of a value that is neither nil nor has bytes, as the server holds them. -/
theorem scalar_datum {value : Ruby.Value}
    (h : value.type ∉ [DataType.nil, .string, .blob]) :
    ∃ d : Datum Bytes, value.reduce = d.toRuby ∧ d.type = value.type ∧ d.string? = none := by
  have hrange : value.reduce.InRange := by
    cases value
    case string | blob => simp [Ruby.Value.type] at h
    all_goals first | exact Ruby.Value.reduce_inRange rfl | trivial
  have hbytes : value.reduce.bytes? = none := by
    cases value
    case string | blob => simp [Ruby.Value.type] at h
    all_goals rfl
  obtain ⟨d, hd⟩ := exists_datum hrange fun bs hbs => by rw [hbytes] at hbs; cases hbs
  have htype : d.type = value.type := by rw [← type_toRuby, ← hd, Ruby.Value.type_reduce]
  refine ⟨d, hd, htype, ?_⟩
  rw [← htype] at h
  cases d
  case string | blob => simp [Datum.type] at h
  all_goals rfl

/-- The frame tells no more of a value than its low bits. -/
theorem encode_reduced {value : Ruby.Value} {d : Datum Bytes} (h : value.reduce = d.toRuby)
    (oid : Nat) : (Ruby.CommandType.write ⟨oid, value⟩).encode =
      (Ruby.CommandType.write ⟨oid, d.toRuby⟩).encode := by
  simp only [Ruby.CommandType.encode, Ruby.WriteCommand.encode, ← h, Ruby.Base.putValue_reduce]

theorem Sent.frame_congr {n : Nat} {type type' : Ruby.CommandType}
    (h : type.encode = type'.encode) : (Sent.mk n type).frame = (Sent.mk n type').frame := by
  rw [Sent.frame, Sent.frame, Ruby.Command.encode_eq, Ruby.Command.encode_eq, h]

theorem payload_scalar {d : Datum Bytes} (h : d.string? = none) :
    payload d = [] ∧ (head d).length ≤ 9 := by
  cases d <;> simp [payload, Datum.string?, head, scalar] at h ⊢

variable {oid : UInt32} {t : DataType} {value : Ruby.Value}

/-- The write of a scalar is understood. -/
theorem body_scalar {d : Datum Bytes} (hd : value.reduce = d.toRuby) (hscalar : d.string? = none)
    (oid : Nat) : Grammar.body (Ruby.CommandType.write ⟨oid, value⟩).encode =
      .ok (.write (UInt32.ofNat oid) (d.map Bytes.size), []) := by
  have hencode : (Ruby.CommandType.write ⟨oid, d.toRuby⟩).encode =
      0 :: Varint.encode oid ++ head d ++ payload d := writeCommand_encode oid d
  rw [encode_reduced hd, hencode, (payload_scalar hscalar).1, List.append_nil]
  exact (body_write_of_data oid (data_decodes d)).whole

theorem stored_scalar (hobject : object oid = .ok t) (n : Nat) (hvalue : value.type = t)
    (hscalar : t ∉ [DataType.nil, .string, .blob]) : ∃ (d : Datum Bytes) (hd : Holds t d),
      store.stored t (Sent.frame ⟨n, .write ⟨oid.toNat, value⟩⟩) = some ⟨d, hd⟩ ∧
      d.toRuby = value.reduce ∧ shown d = d := by
  subst hvalue
  obtain ⟨d, hd, htype, hstring⟩ := scalar_datum hscalar
  have hholds : Holds value.type d := ⟨htype, fun b hb => by rw [hstring] at hb; cases hb⟩
  refine ⟨d, hholds, ?_, hd.symm, ?_⟩
  · rw [Sent.frame_congr (encode_reduced hd oid.toNat)]
    exact stored_write hobject hholds n
  · cases d <;> first | rfl | cases hstring

theorem taken_type {data : Datum UInt32} {payload : List UInt8} {v : Sigma Slot}
    (h : taken oid data payload = .ok v) : v.1 = data.type := by
  unfold taken at h
  split at h
  next =>
    split_ifs at h
    cases h
    rfl
  next => split_ifs at h

/-- The write of a scalar leaves the cells of other types alone, whatever it is addressed to. -/
theorem stored_other_type (n oid : Nat) (hscalar : value.type ∉ [DataType.nil, .string, .blob])
    (hne : value.type ≠ t) :
    store.stored t (Sent.frame ⟨n, .write ⟨oid, value⟩⟩) = none := by
  obtain ⟨d, hd, htype, hstring⟩ := scalar_datum hscalar
  have heffect : store.effect (Sent.frame ⟨n, .write ⟨oid, value⟩⟩) =
      (taken (UInt32.ofNat oid) (d.map Bytes.size) []).toOption := by
    change (Grammar.request _).bind effect = _
    rw [Sent.request_frame, Grammar.command, body_scalar hd hstring oid]
    rfl
  cases htaken : taken (UInt32.ofNat oid) (d.map Bytes.size) [] with
  | error e =>
    rw [htaken] at heffect
    exact store.stored_of_none t heffect
  | ok v =>
    rw [htaken] at heffect
    apply store.stored_of_ne t heffect
    rw [taken_type htaken, Datum.type_map, htype]
    exact hne

theorem stored_read (n oid : Nat) : store.stored t (Sent.frame ⟨n, .read ⟨oid⟩⟩) = none := by
  apply store.stored_of_none
  change (Grammar.request _).bind effect = _
  rw [Sent.request_frame, Grammar.command, read_type_encode, Grammar.body,
    Decoder.bind_ok (Grammar.octet_cons _ _), if_neg (by decide), if_pos (by decide),
    Decoder.bind_ok (Grammar.uint_encode oid).whole]
  rfl

/-- A read of a cell is answered. -/
theorem answer_read (hobject : object oid = .ok t) (n : Nat) (c : Cells) :
    ∃ bs, store.answer c (Sent.frame ⟨n, .read ⟨oid.toNat⟩⟩) = some bs := by
  refine ⟨[4, Ruby.invokeByte true n, 1, 0] ++ datumOctets (shown (c t).1), ?_⟩
  change (Grammar.request _).bind (reply c) = _
  rw [request_read, Option.bind_some, reply, if_pos (isConfirmed_invokeByte true n), hobject]

end Values

section Runs

variable {floats : FloatText} {table : ObjectTable}

/-- A session sends a read, or the write of a value that from_terminal made. -/
theorem request_cases {argv : Argv} {type : Ruby.CommandType}
    (h : Ruby.CommandLine.request floats table argv = some type) :
    (∃ oid, type = .read ⟨oid⟩) ∨ ∃ oid value, type = .write ⟨oid, value⟩ ∧
      value.type ∉ [DataType.nil, .string, .blob] := by
  cases argv with
  | read name =>
    obtain ⟨obj, -, h⟩ := Option.bind_eq_some_iff.mp h
    obtain ⟨obj', -, h⟩ := Option.bind_eq_some_iff.mp h
    cases h
    exact Or.inl ⟨obj'.oid, rfl⟩
  | write name arg =>
    obtain ⟨obj, -, h⟩ := Option.bind_eq_some_iff.mp h
    obtain ⟨value, hvalue, h⟩ := Option.bind_eq_some_iff.mp h
    obtain ⟨obj', -, h⟩ := Option.bind_eq_some_iff.mp h
    cases h
    cases harg : fromTerminalArg floats obj.type arg with
    | error e =>
      rw [harg] at hvalue
      cases hvalue
    | ok value' =>
      rw [harg] at hvalue
      cases hvalue
      obtain ⟨htype, hscalar⟩ := fromTerminalArg_type harg
      exact Or.inr ⟨obj'.oid, value, rfl, htype ▸ hscalar⟩

/-- main has room for it. -/
theorem request_fits {argv : Argv} {type : Ruby.CommandType}
    (h : Ruby.CommandLine.request floats table argv = some type) (n : Nat) :
    (Sent.mk n type).frame.length ≤ 1024 := by
  rw [Sent.frame, Ruby.Command.encode_eq]
  rcases request_cases h with ⟨oid, rfl⟩ | ⟨oid, value, rfl, hscalar⟩
  · have hoid := Ruby.OutputCodec.length_encode_le oid
    rw [read_type_encode]
    simp only [List.length_cons]
    omega
  · obtain ⟨d, hd, -, hstring⟩ := scalar_datum hscalar
    obtain ⟨hpayload, hhead⟩ := payload_scalar hstring
    have hoid := Ruby.OutputCodec.length_encode_le oid
    have hencode : (Ruby.CommandType.write ⟨oid, d.toRuby⟩).encode =
        0 :: Varint.encode oid ++ head d ++ payload d := writeCommand_encode oid d
    rw [encode_reduced hd, hencode, hpayload]
    simp only [List.length_cons, List.length_append, List.length_nil]
    omega

theorem exchange_store (left : Leftover) (s : StateHolder) {c : Sent}
    (hfits : c.frame.length ≤ 1024) : store.call (cells s) c.frame =
      ((Session.exchange left s c).1, cells (Session.exchange left s c).2) := by
  rw [Session.exchange, dif_pos hfits]
  exact serve_store s left ⟨c.frame, hfits⟩

theorem sent_fits {i : Session} {c : Sent} (h : i.sent? floats table = some c) :
    c.frame.length ≤ 1024 := by
  rw [Session.sent?] at h
  split_ifs at h
  obtain ⟨type, htype, rfl⟩ := Option.map_eq_some_iff.mp h
  exact request_fits htype 0

theorem session_cells (i : Session) (s : StateHolder) :
    cells (i.run floats table s).2 = match i.sent? floats table with
      | some c => store.store (cells s) c.frame
      | none => cells s := by
  rw [Session.run]
  cases hsent : i.sent? floats table with
  | none => rfl
  | some c => exact (congrArg Prod.snd (exchange_store i.left s (sent_fits hsent))).symm

/-- The cells after a run are those after the commands that the server did. -/
theorem sessions_cells (runs : List Session) : cells (sessions floats table runs).2 =
    cellsAfter (runs.filterMap fun i => i.sent? floats table) := by
  have hrun (s : StateHolder) : cells (Framework.answers
      (fun s (i : Session) => i.run floats table s) s runs).2 =
        store.after (cells s) ((runs.filterMap fun i => i.sent? floats table).map Sent.frame) := by
    induction runs generalizing s with
    | nil => rfl
    | cons i runs ih =>
      rw [Framework.answers, ih, session_cells, List.filterMap_cons]
      cases i.sent? floats table <;> rfl
  exact hrun state

variable {name : Option String} {obj : Ruby.Client.ObjectDef} {oid : UInt32} {t : DataType}

/-- The object that the client looks up is the one that was found by its name. -/
theorem lookup_again {json : Json} (hjson : ObjectTable.fromJson json = some table)
    (hobj : lookup table name = some obj) : table.lookupName obj.name = some obj := by
  obtain ⟨n, -, hname⟩ := Option.bind_eq_some_iff.mp hobj
  rwa [ObjectTable.named_fromJson hjson n obj hname]

/-- An answered read prints what the cell shows. -/
theorem session_read {json : Json} (hjson : ObjectTable.fromJson json = some table)
    (hobj : lookup table name = some obj) (hoid : obj.oid = oid.toNat)
    (hobject : object oid = .ok t) (left : Leftover) (s : StateHolder) :
    (Session.run floats table ⟨.read name, left, .answered⟩ s).1 =
      match toTerminalAs floats obj.type (some (shown (cells s t).1).toRuby) with
      | .ok text => .line text
      | .error e => .refused e := by
  have hname := lookup_again hjson hobj
  let c : Sent := ⟨0, .read ⟨obj.oid⟩⟩
  have hrequest : Ruby.CommandLine.request floats table (.read name) = some c.type := by
    simp [Ruby.CommandLine.request, hobj, hname, c]
  have houtcome := outcome_read hobject 0 (cells s)
  obtain ⟨bs, hanswer⟩ := answer_read hobject 0 (cells s)
  rw [← hoid] at houtcome hanswer
  obtain ⟨-, type, htype, hdecode⟩ := c.reply_decodes hanswer
  rw [houtcome] at htype
  cases htype
  have hexchange := congrArg Prod.fst (exchange_store left s (request_fits hrequest 0))
  have hreceived : Session.received (Session.exchange left s c).1 =
      .response ⟨true, 0, .read ⟨.success, some (shown (cells s t).1).toRuby⟩⟩ := by
    rw [← hexchange]
    change Session.received (store.answer (cells s) c.frame) = _
    rw [hanswer, Session.received, Option.bind_some, hdecode]
    rfl
  refine (Ruby.CommandLine.run_congr floats table (.read name) ?_).trans
    (?_ : Ruby.CommandLine.run floats table (fun _ => .response
      ⟨true, 0, .read ⟨.success, some (shown (cells s t).1).toRuby⟩⟩) (.read name) = _)
  · intro type htype
    cases hrequest.symm.trans htype
    exact (if_pos rfl).trans hreceived
  · simp only [Ruby.CommandLine.run, hobj, Ruby.Client.read, hname]
    rfl

/-- A write that the server does. -/
theorem sent?_write {json : Json} (hjson : ObjectTable.fromJson json = some table)
    (hobj : lookup table name = some obj) {arg : Option (List UInt8)} {value : Ruby.Value}
    (harg : fromTerminalArg floats obj.type arg = .ok value) {i : Session}
    (hargv : i.argv = .write name arg) (hdone : i.delivery ≠ .lost) :
    i.sent? floats table = some ⟨0, .write ⟨obj.oid, value⟩⟩ := by
  have hname := lookup_again hjson hobj
  rw [Session.sent?, if_neg hdone, hargv]
  simp [Ruby.CommandLine.request, hobj, hname, harg, Except.toOption]

/-- The server gets nothing that it would store in the string or in the blob. -/
theorem sent_stores_nothing (ht : t = .string ∨ t = .blob) {i : Session} {c : Sent}
    (h : i.sent? floats table = some c) : store.stored t c.frame = none := by
  rw [Session.sent?] at h
  split_ifs at h
  obtain ⟨type, htype, rfl⟩ := Option.map_eq_some_iff.mp h
  rcases request_cases htype with ⟨oid, rfl⟩ | ⟨oid, value, rfl, hscalar⟩
  · exact stored_read 0 oid
  · apply stored_other_type 0 oid hscalar
    rintro rfl
    rcases ht with ht | ht <;> rw [ht] at hscalar <;> exact absurd (by decide) hscalar

/-- Two names for one object, and the server's string as a blob. -/
def valves : Json := .hash [
  ("valve", .hash [("oid", .integer 1), ("type", .string ['u', '8'])]),
  ("gate", .hash [("oid", .string ['0', 'x', '0', '1']), ("type", .string ['U', '1', '6'])]),
  ("label", .hash [("oid", .string ['c']), ("type", .string ['b', 'l', 'o', 'b'])])]

end Runs

end Aloof.Agreement
