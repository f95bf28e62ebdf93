import Aloof.C.TestServerStore

namespace Aloof.C.TestServer

open Framework

theorem appReader_appendOnly : Server.AppendOnly appReader := by
  intro s oid out
  rw [appReader_eq]
  cases object oid with
  | ok t => exact (Data.put_appends _).writes out
  | error e => exact .refl out

theorem length_uintOctets_le (v : UInt32) : (Oer.uintOctets v).length ≤ 5 := by
  unfold Oer.uintOctets
  split_ifs <;> simp [length_octets]

theorem length_shown_le {t : DataType} (v : Slot t) :
    (datumOctets (shown v.1)).length ≤ 518 := by
  obtain ⟨v, -, hshort⟩ := v
  cases v with
  | string b | blob b =>
    have hsize := length_uintOctets_le b.size
    have hdata := hshort b rfl
    simp only [shown, datumOctets, List.length_cons, List.length_append]
    omega
  | _ => simp [shown, datumOctets, length_octets]

/-- A reply is not empty, and fits into tx_buffer. -/
theorem length_reply {c : Cells} {req : Request} {bs : List UInt8} (h : reply c req = some bs) :
    0 < bs.length ∧ bs.length ≤ 522 := by
  have hshort {inv : UInt8} {xs : List UInt8} (hx : (if Server.isConfirmed inv then some xs
      else none) = some bs) (hlen : 0 < xs.length ∧ xs.length ≤ 522) :
      0 < bs.length ∧ bs.length ≤ 522 := by
    split_ifs at hx
    cases hx
    exact hlen
  cases req with
  | hello =>
    cases h
    decide
  | command inv body payload =>
    cases body with
    | read oid =>
      rw [reply] at h
      cases hobject : object oid with
      | ok t =>
        rw [hobject] at h
        have hvalue := length_shown_le (c t)
        refine hshort h ?_
        rw [List.length_append]
        simp only [List.length_cons, List.length_nil]
        omega
      | error e =>
        rw [hobject] at h
        exact hshort h (by simp [Server.readFailure])
    | write oid data =>
      rw [reply] at h
      cases htaken : taken oid data payload with
      | ok v =>
        rw [htaken] at h
        exact hshort h (by simp)
      | error e =>
        rw [htaken] at h
        exact hshort h (by simp)


section Serve

variable (loc : Locals) (s : StateHolder) {inp out : Stream}

/-- What the server leaves behind when the reply of the store is this one. -/
structure Serves (r : Outcome StateHolder) (bs : Option (List UInt8)) (c : Cells) : Prop where
  content : r.out.content = bs.getD []
  cells : cells r.app = c

/-- There is room for any reply. -/
theorem content_reply (hout : out.pos = 0) (hroom : 522 ≤ out.room) {bs : List UInt8}
    (hbs : bs.length ≤ 522) : (out.push bs).content = bs := by
  have hlength := Nat.le_trans hbs hroom
  rw [Stream.push_of_le hlength, Stream.content_append hlength, Server.content_eq_nil hout]
  rfl

/-- What was written is taken back behind a command that is not confirmed. -/
theorem serves_rollback (inv : UInt8) {r : Outcome StateHolder} {bs : List UInt8} {c : Cells}
    (hinp : inp.pos = 0) (hcontent : r.out.content = bs) (hcells : cells r.app = c) :
    Serves (Server.rollback inv inp.pos r) (if Server.isConfirmed inv then some bs else none) c := by
  refine ⟨?_, by rw [Server.rollback_app]; exact hcells⟩
  cases hinv : Server.isConfirmed inv with
  | false =>
    rw [hinp, Server.content_rollback hinv]
    rfl
  | true =>
    rw [Server.rollback_confirmed hinv]
    exact hcontent

theorem serves_read {inv : UInt8} {oid : UInt32} {payload : List UInt8} (hinp : inp.pos = 0)
    (hout : out.pos = 0) (hroom : 522 ≤ out.room)
    (h : Grammar.request inp.rest = some (.command inv (.read oid) payload)) :
    Serves (server.process loc s inp out) (reply (cells s) (.command inv (.read oid) payload))
      (cells s) := by
  obtain ⟨tl, hrest, hbody⟩ := Grammar.request_eq_command h
  obtain ⟨hrun, -⟩ := server.process_read loc s inv inp out hrest hbody
  obtain ⟨hok, hfail⟩ := server.respondRead_out loc s inv ((inp.skip 2).after payload) out oid
    appReader_appendOnly
  have hhandler : server.readHandler = appReader := rfl
  have happ : (server.respondRead loc s inv oid ((inp.skip 2).after payload) out).app = s := by
    rw [Server.respondRead_eq, hhandler]
    dsimp only
    rw [appReader_eq]
    cases object oid <;> rfl
  rw [hhandler, appReader_eq] at hok hfail
  rw [hrun]
  cases hobject : object oid with
  | ok t =>
    have hreply : reply (cells s) (.command inv (.read oid) payload) =
        if Server.isConfirmed inv then some ([4, inv, 1, 0] ++ datumOctets (shown (cells s t).1))
        else none := by
      rw [reply, hobject]
    have hvalue := length_shown_le (cells s t)
    have hlength : ([4, inv, 1, 0] ++ datumOctets (shown (cells s t).1)).length ≤ 522 := by
      rw [List.length_append]
      change 4 + _ ≤ _
      omega
    have hfit : (out.push [4, inv, 1, 0]).Fits (datumOctets (shown (cells s t).1)).length := by
      rw [Stream.fits_iff_le_room (datumOctets_pos _), Stream.room_push]
      change _ ≤ out.room - 4
      omega
    rw [hobject] at hok
    rw [hreply]
    refine serves_rollback inv hinp ?_ (congrArg cells happ)
    rw [hok rfl]
    change (Data.put _ _).2.content = _
    rw [(Data.put_appends _).ok hfit, ← Stream.push_of_le hfit.2, Stream.push_push]
    exact content_reply hout hroom hlength
  | error e =>
    have hreply : reply (cells s) (.command inv (.read oid) payload) =
        if Server.isConfirmed inv then some (Server.readFailure inv (accessErrorCode e).toUInt8)
        else none := by
      rw [reply, hobject]
    rw [hobject] at hfail
    rw [hreply]
    refine serves_rollback inv hinp ?_ (congrArg cells happ)
    rw [(hfail rfl).content]
    exact content_reply hout hroom (by simp [Server.readFailure])

theorem serves_write {inv : UInt8} {oid : UInt32} {data : Datum UInt32} {payload : List UInt8}
    (hr : inp.readable = true) (hinp : inp.pos = 0) (hout : out.pos = 0) (hroom : 522 ≤ out.room)
    (h : Grammar.request inp.rest = some (.command inv (.write oid data) payload)) :
    Serves (server.process loc s inp out)
      (reply (cells s) (.command inv (.write oid data) payload))
      (match taken oid data payload with
        | .ok v => Function.update (cells s) v.1 v.2
        | .error _ => cells s) := by
  obtain ⟨tl, hrest, hbody⟩ := Grammar.request_eq_command h
  obtain ⟨hrun, hpayload⟩ := server.process_write loc s inv inp out hrest hbody
  have hwrites : Writes s (appWriter s oid (placed data ((inp.skip 2).after payload))
      ((inp.skip 2).after payload)) (taken oid data ((inp.skip 2).after payload).rest) :=
    appWriter_spec s oid data hr
  have hhandler : server.writeHandler = appWriter := rfl
  rw [hpayload] at hwrites
  rw [Server.respondWrite_eq, hhandler] at hrun
  rw [hrun]
  cases htaken : taken oid data payload with
  | ok v =>
    obtain ⟨hverdict, hcells⟩ := hwrites.ok v htaken
    have hreply : reply (cells s) (.command inv (.write oid data) payload) =
        if Server.isConfirmed inv then some [4, inv, 0, 0] else none := by
      rw [reply, htaken]
    rw [hreply]
    refine serves_rollback inv hinp ?_ hcells
    dsimp only
    rw [Server.writeReply, if_pos hverdict]
    exact content_reply hout hroom (by simp)
  | error e =>
    obtain ⟨hverdict, herror, hcells⟩ := hwrites.error e htaken
    have hreply : reply (cells s) (.command inv (.write oid data) payload) =
        if Server.isConfirmed inv then some [4, inv, 0, 1, (accessErrorCode e).toUInt8]
        else none := by
      rw [reply, htaken]
    rw [hreply]
    refine serves_rollback inv hinp ?_ hcells
    dsimp only
    rw [Server.writeReply, hverdict, herror]
    exact content_reply hout hroom (by simp)

theorem store_effect {message : List UInt8} {req : Request}
    (h : Grammar.request message = some req) (c : Cells) :
    store.store c message = match effect req with
      | some v => Function.update c v.1 v.2
      | none => c := by
  have heffect : store.effect message = effect req := by
    change (Grammar.request message).bind effect = _
    rw [h, Option.bind_some]
  rw [Registers.store, heffect]
  cases effect req <;> rfl

variable (inp out) in
theorem serves (hr : inp.readable = true) (hinp : inp.pos = 0) (hout : out.pos = 0)
    (hroom : 522 ≤ out.room) :
    Serves (server.process loc s inp out) (store.answer (cells s) inp.rest)
      (store.store (cells s) inp.rest) := by
  change Serves _ ((Grammar.request inp.rest).bind (reply (cells s))) _
  cases hreq : Grammar.request inp.rest with
  | none =>
    obtain ⟨happ, -, hcontent⟩ := server.process_silent loc s inp out hinp hout hreq
    have heffect : store.effect inp.rest = none := by
      change (Grammar.request inp.rest).bind effect = _
      rw [hreq, Option.bind_none]
    rw [Registers.store, heffect]
    exact ⟨hcontent, by rw [happ]⟩
  | some req =>
    rw [store_effect hreq, Option.bind_some]
    cases req with
    | hello =>
      obtain ⟨happ, -, hcontent⟩ := server.process_greets loc s inp out rfl rfl hout
        (Nat.le_trans (by decide) hroom) hreq
      exact ⟨hcontent, by rw [happ]; rfl⟩
    | command inv body payload =>
      cases body with
      | read oid => exact serves_read loc s hinp hout hroom hreq
      | write oid data =>
        have hwrite := serves_write loc s hr hinp hout hroom hreq
        rw [effect]
        cases htaken : taken oid data payload with
        | ok v => rw [htaken] at hwrite; exact hwrite
        | error e => rw [htaken] at hwrite; exact hwrite

/-- What is written to the client is what the output holds. -/
theorem written_eq {r : Stream} {opt : Option (List UInt8)} (hcontent : r.content = opt.getD [])
    (hlength : ∀ bs, opt = some bs → 0 < bs.length ∧ bs.length ≤ 522) :
    (if r.tell > 0 then some (r.buf.take r.tell.toUInt16.toNat) else none) = opt := by
  have hpos := r.length_content
  rw [hcontent] at hpos
  cases opt with
  | none =>
    have hzero : ¬ r.tell > 0 := by
      change ¬ (0 : UInt32) < r.pos
      rw [UInt32.lt_iff_toNat_lt, ← hpos]
      decide
    rw [if_neg hzero]
  | some bs =>
    obtain ⟨hne, hfit⟩ := hlength bs rfl
    change bs.length = _ at hpos
    have hsome : r.tell > 0 := by
      change (0 : UInt32) < r.pos
      rw [UInt32.lt_iff_toNat_lt, ← hpos]
      exact hne
    have hheader : r.tell.toUInt16.toNat = r.pos.toNat := by
      rw [UInt32.toNat_toUInt16, Stream.tell]
      exact Nat.mod_eq_of_lt (by omega)
    rw [if_pos hsome, hheader]
    exact congrArg some hcontent

/-- One pass of the loop is one request to the store, whatever was left in memory. -/
theorem serve_store (left : Leftover) (frame : Frame) :
    store.call (cells s) frame.bytes = ((serve left s frame).1, cells (serve left s frame).2) := by
  have hroom : 522 ≤ (Stream.init left.txBuffer (lt_of_le_kilo left.length_eq.le)).room := by
    change 522 ≤ left.txBuffer.length - 0
    rw [left.length_eq]
    decide
  have hrest := Stream.rest_initRo (lt_of_le_kilo frame.length_le)
  have hserves := serves left.loc s
    (Stream.initRo frame.bytes (lt_of_le_kilo frame.length_le))
    (Stream.init left.txBuffer (lt_of_le_kilo left.length_eq.le)) rfl rfl rfl hroom
  rw [hrest] at hserves
  refine Prod.ext ?_ hserves.cells.symm
  refine (written_eq hserves.content ?_).symm
  intro bs hbs
  obtain ⟨req, -, hreply⟩ := Option.bind_eq_some_iff.mp hbs
  exact length_reply hreply

end Serve

/-- The passes of the loop, from the start of the program on. -/
def run (inputs : List (Leftover × Frame)) : List (Option (List UInt8)) × StateHolder :=
  answers (fun s i => serve i.1 s i.2) state inputs

/-- The server answers as the store does, for as long as it runs. -/
theorem run_store (inputs : List (Leftover × Frame)) :
    (run inputs).1 = (answers store.call (cells state) (inputs.map (·.2.bytes))).1 ∧
    cells (run inputs).2 = store.after (cells state) (inputs.map (·.2.bytes)) := by
  have hmap : answers store.call (cells state) (inputs.map (·.2.bytes)) =
      ((run inputs).1, cells (run inputs).2) :=
    answers_map cells (·.2.bytes) (fun s i => serve_store s i.1 i.2) state inputs
  exact ⟨(congrArg Prod.fst hmap).symm, (congrArg Prod.snd hmap).symm⟩

/-- A read of a cell gets what was last taken for it, or what it held from the start. -/
theorem reads_last (inputs : List (Leftover × Frame)) (left : Leftover) {frame : Frame}
    {inv : UInt8} {oid : UInt32} {payload : List UInt8} {t : DataType}
    (hframe : Grammar.request frame.bytes = some (.command inv (.read oid) payload))
    (hinv : Server.isConfirmed inv = true) (hobject : object oid = .ok t) :
    (serve left (run inputs).2 frame).1 = some ([4, inv, 1, 0] ++ datumOctets
      (shown ((store.last t (inputs.map (·.2.bytes))).getD (cells state t)).1)) := by
  have hserve := congrArg Prod.fst (serve_store (run inputs).2 left frame)
  have hcells := congrFun (run_store inputs).2 t
  rw [Registers.after_apply] at hcells
  change (Grammar.request frame.bytes).bind (reply (cells (run inputs).2)) = _ at hserve
  rw [← hserve, hframe, Option.bind_some, reply, if_pos hinv, hobject, ← hcells]

/-- Zero bytes. -/
def clean : Leftover := ⟨Server.zeroed, List.replicate 1024 0, List.length_replicate⟩

/-- Two writes of a string, the second one unconfirmed, and a write of a number to the string. -/
theorem reads_last_string :
    (serve clean (run [(clean, ⟨[3, 0x80, 0, 12, 12, 2, 104, 105], by decide⟩),
        (clean, ⟨[3, 1, 0, 12, 12, 1, 111], by decide⟩),
        (clean, ⟨[3, 0x82, 0, 12, 1, 7], by decide⟩)]).2
      ⟨[3, 0x83, 1, 12], by decide⟩).1 = some [4, 0x83, 1, 0, 12, 1, 111] :=
  @reads_last _ clean ⟨[3, 0x83, 1, 12], by decide⟩ 0x83 12 [] .string rfl rfl rfl

end Aloof.C.TestServer
