import Aloof.Agreement.Remote
import Aloof.Agreement.Verdict
import Aloof.Ruby.ClientOrigin

namespace Aloof.Agreement

open Framework C C.TestServer
open Ruby (invokeByte)
open Ruby.Client (client Vouched Vouches)

/-- The cells that the commands before a call leave. -/
def cellsAfter (sent : List Sent) : Cells := store.after (cells state) (sent.map Sent.frame)

/-- The store's outcome of call n, behind the commands sent before it. -/
def Answered (sent : List Sent) (n : Nat) (msg : Ruby.Response) : Prop :=
  ∃ before c after, sent = before ++ c :: after ∧ c.n = n ∧
    outcome (cellsAfter before) c.frame = some msg.type

/-- The commands that are not on the wire have been done. -/
structure Done (w : World) (done : List Sent) : Prop where
  sent : w.sent = done ++ w.wire
  cells : TestServer.cells w.server = cellsAfter done

structure Linked (w : World) : Prop where
  reachable : client.Reachable w.client
  ids : w.sent.Pairwise fun c c' => c.n < c'.n
  issued : ∀ c ∈ w.sent, c.n < w.client.invokeId
  done : ∃ done, Done w done
  waiting : ∀ c ∈ w.wire, w.client.line c.n = .command c.frame
  answered : Vouched (Answered w.sent) w.client

theorem Answered.append {sent : List Sent} {n : Nat} {msg : Ruby.Response} (more : List Sent)
    (h : Answered sent n msg) : Answered (sent ++ more) n msg := by
  obtain ⟨before, c, after, rfl, hn, houtcome⟩ := h
  exact ⟨before, c, after ++ more, by simp, hn, houtcome⟩

theorem cellsAfter_concat (done : List Sent) (c : Sent) :
    cellsAfter (done ++ [c]) = store.store (cellsAfter done) c.frame := by
  rw [cellsAfter, List.map_append, store.after_append]
  rfl

theorem linked_start : Linked World.start where
  reachable := .nil
  ids := .nil
  issued c h := by cases h
  done := ⟨[], rfl, rfl⟩
  waiting c h := by cases h
  answered := Ruby.Client.vouched_new

section Steps

variable {w : World} {s : Ruby.Client.State} {a : Ruby.Client.Action}

theorem Linked.mem_sent (h : Linked w) {c : Sent} (hc : c ∈ w.wire) : c ∈ w.sent := by
  obtain ⟨done, hdone⟩ := h.done
  rw [hdone.sent]
  exact List.mem_append_right done hc

/-- What a step of the client itself leaves as it is. -/
theorem Linked.client_step (h : Linked w) (hstep : Ruby.Client.step w.client a = some s)
    (hanswer : ∀ n frame, a ≠ .answer n frame) :
    client.Reachable s ∧ (∀ c ∈ w.sent, c.n < s.invokeId) ∧
    (∀ c ∈ w.wire, s.line c.n = .command c.frame) ∧ Vouched (Answered w.sent) s := by
  have hcases := Ruby.Client.step_cases hstep
  refine ⟨h.reachable.snoc trivial hstep, fun c hc => ?_, fun c hc => ?_, ?_⟩
  · exact Nat.lt_of_lt_of_le (h.issued c hc) hcases.invokeId_le
  · exact hcases.command (hanswer c.n) (h.issued c (h.mem_sent hc)) (h.waiting c hc)
  · exact h.answered.step (fun n frame _ ha _ => absurd ha (hanswer n frame)) hcases

theorem Linked.act (h : Linked w) (hstep : Ruby.Client.step w.client a = some s)
    (hanswer : ∀ n frame, a ≠ .answer n frame) : Linked { w with client := s } := by
  obtain ⟨hreachable, hissued, hwaiting, hanswered⟩ := h.client_step hstep hanswer
  obtain ⟨done, hdone⟩ := h.done
  exact ⟨hreachable, h.ids, hissued, ⟨done, hdone.sent, hdone.cells⟩, hwaiting, hanswered⟩

/-- The new command is behind all others. -/
theorem Linked.transmit (h : Linked w) {type : Ruby.CommandType}
    (hstep : Ruby.Client.step w.client (.transmit type) = some s) :
    Linked { w with
      client := s
      wire := w.wire ++ [⟨w.client.invokeId, type⟩]
      sent := w.sent ++ [⟨w.client.invokeId, type⟩] } := by
  obtain ⟨hreachable, hissued, hwaiting, hanswered⟩ := h.client_step hstep (by simp)
  obtain ⟨done, hdone⟩ := h.done
  obtain ⟨hid, hline⟩ : s.invokeId = w.client.invokeId + 1 ∧
      s.line w.client.invokeId =
        .command (Ruby.Command.encode ⟨true, w.client.invokeId, type⟩) := by
    have hcases : Ruby.Client.Step w.client (.transmit type) s := Ruby.Client.step_cases hstep
    cases hcases
    simp
  refine ⟨hreachable, ?_, ?_, ⟨done, ?_, hdone.cells⟩, ?_, ?_⟩
  · refine List.pairwise_append.mpr ⟨h.ids, List.pairwise_singleton _ _, fun c hc c' hc' => ?_⟩
    cases List.mem_singleton.mp hc'
    exact h.issued c hc
  · intro c hc
    rcases List.mem_append.mp hc with hc | hc
    · exact hissued c hc
    · cases List.mem_singleton.mp hc
      change w.client.invokeId < s.invokeId
      omega
  · rw [← List.append_assoc, ← hdone.sent]
  · intro c hc
    rcases List.mem_append.mp hc with hc | hc
    · exact hwaiting c hc
    · cases List.mem_singleton.mp hc
      exact hline
  · exact hanswered.mono fun n msg => Answered.append _

/-- The pass of the server for the oldest command on the wire. -/
theorem Done.serve {done wire : List Sent} {c : Sent} (h : Done w done) (hfirst : w.wire = c :: wire)
    (left : Leftover) (fits : c.frame.length ≤ 1024) :
    store.answer (cellsAfter done) c.frame = (TestServer.serve left w.server ⟨c.frame, fits⟩).1 ∧
    w.sent = (done ++ [c]) ++ wire ∧
    TestServer.cells (TestServer.serve left w.server ⟨c.frame, fits⟩).2 =
      cellsAfter (done ++ [c]) := by
  have hserve := serve_store w.server left ⟨c.frame, fits⟩
  rw [h.cells] at hserve
  refine ⟨congrArg Prod.fst hserve, ?_, ?_⟩
  · rw [h.sent, hfirst, List.append_assoc]
    rfl
  · rw [cellsAfter_concat]
    exact (congrArg Prod.snd hserve).symm

theorem Linked.ignore (h : Linked w) {left : Leftover} {c : Sent} {wire : List Sent}
    (hfirst : w.wire = c :: wire) (fits : c.frame.length ≤ 1024) :
    Linked { w with
      wire := wire
      server := (TestServer.serve left w.server ⟨c.frame, fits⟩).2 } := by
  obtain ⟨done, hdone⟩ := h.done
  obtain ⟨-, hsent, hcells⟩ := hdone.serve hfirst left fits
  have hwaiting := h.waiting
  rw [hfirst, List.forall_mem_cons] at hwaiting
  exact ⟨h.reachable, h.ids, h.issued, ⟨_, hsent, hcells⟩, hwaiting.2, h.answered⟩

/-- The reply is one that the client has to expect of a server. -/
theorem Linked.reply (h : Linked w) {left : Leftover} {c : Sent} {wire : List Sent}
    (hfirst : w.wire = c :: wire) (fits : c.frame.length ≤ 1024) {bs : List UInt8}
    (houtput : (TestServer.serve left w.server ⟨c.frame, fits⟩).1 = some bs) :
    Linked { w with
      client := { w.client with line := Function.update w.client.line c.n (.response bs) }
      wire := wire
      server := (TestServer.serve left w.server ⟨c.frame, fits⟩).2 } := by
  obtain ⟨done, hdone⟩ := h.done
  obtain ⟨hanswer, hsent, hcells⟩ := hdone.serve hfirst left fits
  rw [houtput] at hanswer
  obtain ⟨hecho, type, houtcome, hdecode⟩ := c.reply_decodes hanswer
  have hwaiting := h.waiting
  rw [hfirst, List.forall_mem_cons] at hwaiting
  have hresponse : Ruby.Client.isResponse bs = true := by
    rw [Ruby.Client.isResponse, hdecode]
  have hstep := Ruby.Client.Step.answer c.n c.frame bs hwaiting.1 hecho hresponse
  refine ⟨h.reachable.snoc trivial (Ruby.Client.enabled hstep), h.ids, h.issued,
    ⟨_, hsent, hcells⟩, ?_, h.answered.step ?_ hstep⟩
  · have hids := h.ids
    rw [hsent, List.append_assoc] at hids
    have hbehind := (List.pairwise_cons.mp (List.pairwise_append.mp hids).2.1).1
    intro c' hc'
    exact (Function.update_of_ne (Nat.ne_of_gt (hbehind c' hc')) _ _).trans (hwaiting.2 c' hc')
  · intro n frame msg ha hmsg
    cases ha
    cases hdecode.symm.trans hmsg
    exact ⟨done, c, wire, by rw [hsent, List.append_assoc]; rfl, rfl, houtcome⟩

end Steps

theorem linked_invariant : System.Invariant World.world Linked where
  init := linked_start
  step w e w' h hstep := by
    cases World.step_cases hstep with
    | transmit type s fits hown => exact h.transmit hown
    | act a s own silent hown => exact h.act hown own
    | ignore left c wire hfirst fits silent => exact h.ignore hfirst fits
    | reply left c wire bs hfirst fits output => exact h.reply hfirst fits output

/-- A Response that a call returns is to this call's command. -/
theorem Linked.returned {w : World} (h : Linked w) {n : Nat} {reply : Ruby.Reply}
    (hreturned : w.client.returned n = some (some reply)) : Answered w.sent n reply.msg := by
  have hanswered := h.answered.returned n reply hreturned
  have hsorted := (Ruby.Client.inv_invariant.reachable h.reachable).sorted
  rwa [hsorted.returned n reply hreturned] at hanswered

section Values

variable {oid oid' : UInt32} {t : DataType}

theorem object_injective (h : object oid = .ok t) (h' : object oid' = .ok t) : oid = oid' := by
  have hcell {oid : UInt32} (h : object oid = .ok t) : Data.types[oid.toNat]? = some t := by
    rw [object] at h
    split at h
    next t' hcell =>
      cases h
      exact hcell
    next => cases h
  have hnodup : Data.types.Nodup := by decide
  obtain ⟨hlt, -⟩ := List.getElem?_eq_some_iff.mp (hcell h)
  exact UInt32.toNat_inj.mp ((List.getElem?_inj hlt hnodup).mp ((hcell h).trans (hcell h').symm))

theorem taken_object {data : Datum UInt32} {payload : List UInt8} {v : Sigma Slot}
    (h : taken oid data payload = .ok v) : object oid = .ok v.1 := by
  unfold taken at h
  split at h
  next t' hobject =>
    split_ifs at h with htype hfits
    cases h
    rw [hobject, not_not.mp htype]
  next => split_ifs at h

/-- The object that a call writes; the server gets the last 32 bits of the oid. -/
def Sent.object? (c : Sent) : Option UInt32 :=
  match c.type with
  | .write type => some (UInt32.ofNat type.oid)
  | .read _ => none

theorem Sent.request_frame (c : Sent) :
    Grammar.request c.frame = Grammar.command (invokeByte true c.n) c.type.encode := by
  rw [Sent.frame, Ruby.Command.encode_eq]
  exact Grammar.request_command _ _

theorem read_type_encode (oid : Nat) :
    (Ruby.CommandType.read ⟨oid⟩).encode = 1 :: Varint.encode oid := by
  have hframe := read_encode true 0 oid
  rw [Ruby.Command.encode_eq] at hframe
  exact (List.cons.inj (List.cons.inj hframe).2).2

/-- A write that the server understands is one to the object that the client named. -/
theorem Sent.object?_of_write {c : Sent} {data : Datum UInt32} {payload : List UInt8}
    (h : Grammar.body c.type.encode = .ok (.write oid data, payload)) : c.object? = some oid := by
  obtain ⟨n, type⟩ := c
  cases type with
  | read type =>
    rw [read_type_encode, Grammar.body, Decoder.bind_ok (Grammar.octet_cons _ _),
      if_neg (by decide), if_pos (by decide),
      Decoder.bind_ok (Grammar.uint_encode type.oid).whole] at h
    cases h
  | write type =>
    have hencode : (Ruby.CommandType.write type).encode =
        0 :: (Varint.encode type.oid ++ Ruby.Base.putValue type.value) := by
      simp only [Ruby.CommandType.encode, Ruby.WriteCommand.encode, Ruby.OutputCodec.putUint_eq]
      simp [Ruby.WriteCommand.tag, Varint.encode, Varint.short, octets]
    rw [hencode, Grammar.body, Decoder.bind_ok (Grammar.octet_cons _ _), if_pos (by decide),
      Decoder.bind_ok (Grammar.uint_encode type.oid _)] at h
    obtain ⟨d, r, -, hrun⟩ := Decoder.bind_eq_ok h
    cases hrun
    rfl

/-- A command that writes another object, or none, stores nothing in the cell. -/
theorem stored_other (hobject : object oid = .ok t) {c : Sent} (hother : c.object? ≠ some oid) :
    store.stored t c.frame = none := by
  cases heffect : store.effect c.frame with
  | none => exact store.stored_of_none t heffect
  | some v =>
    apply store.stored_of_ne t heffect
    rintro rfl
    obtain ⟨req, hreq, hv⟩ := Option.bind_eq_some_iff.mp heffect
    rw [c.request_frame, Grammar.command] at hreq
    obtain ⟨⟨b, payload⟩, hbody, rfl⟩ := Option.map_eq_some_iff.mp hreq
    cases hok : Grammar.body c.type.encode with
    | error e =>
      rw [hok] at hbody
      cases hbody
    | ok r =>
      rw [hok] at hbody
      cases hbody
      cases b with
      | read oid' => cases hv
      | write oid' data =>
        have htaken : taken oid' data payload = .ok v := by
          change (taken oid' data payload).toOption = some v at hv
          cases h : taken oid' data payload with
          | ok v' =>
            rw [h] at hv
            cases hv
            rfl
          | error e =>
            rw [h] at hv
            cases hv
        cases object_injective hobject (taken_object htaken)
        exact hother (c.object?_of_write hok)

theorem fill_payload (v : Datum Bytes) : fill (v.map Bytes.size) (payload v) = v := by
  have hwhole (b : Bytes) (h : (b.data.take b.size.toNat).length < 2^32) :
      (⟨b.data.take b.size.toNat, h⟩ : Bytes) = b := by
    apply Bytes.ext_data
    change b.data.take b.size.toNat = b.data
    rw [b.toNat_size, List.take_length]
  cases v with
  | string b => exact congrArg Datum.string (hwhole b _)
  | blob b => exact congrArg Datum.blob (hwhole b _)
  | _ => rfl

theorem fits_payload {v : Datum Bytes} (hv : Holds t v) :
    Fits (v.map Bytes.size) (payload v) := by
  intro size hsize
  rw [Datum.string?_map] at hsize
  obtain ⟨b, hb, rfl⟩ := Option.map_eq_some_iff.mp hsize
  have hpayload : payload v = b.data := by rw [payload, hb]; rfl
  rw [hpayload, b.toNat_size]
  exact ⟨hv.short b hb, Nat.le_refl _⟩

/-- The value tells the cell. -/
theorem slot_eq {t' : DataType} {v v' : Datum Bytes} (hv : Holds t v) (hv' : Holds t' v')
    (h : v = v') : (⟨t, v, hv⟩ : Sigma Slot) = ⟨t', v', hv'⟩ := by
  obtain ⟨rfl, -⟩ := hv
  obtain ⟨rfl, -⟩ := hv'
  cases h
  rfl

/-- A write of a value that the cell can hold. -/
theorem stored_write (hobject : object oid = .ok t) {v : Datum Bytes} (hv : Holds t v) (n : Nat) :
    store.stored t (Sent.frame ⟨n, .write ⟨oid.toNat, v.toRuby⟩⟩) = some ⟨v, hv⟩ := by
  apply store.stored_of_effect
  have hfits := fits_payload hv
  have htype : (v.map Bytes.size).type = t := (Datum.type_map _ v).trans hv.type
  have hencode : (Ruby.CommandType.write ⟨oid.toNat, v.toRuby⟩).encode =
      0 :: Varint.encode oid.toNat ++ head v ++ payload v := writeCommand_encode oid.toNat v
  change (Grammar.request _).bind effect = _
  rw [Sent.request_frame, Grammar.command, hencode, body_write_decodes oid v (payload v)]
  change (taken _ _ _).toOption = _
  rw [taken_fits (by rw [hobject, htype]) hfits]
  exact congrArg some (slot_eq _ hv (fill_payload v))

theorem request_read (oid : UInt32) (n : Nat) :
    Grammar.request (Sent.frame ⟨n, .read ⟨oid.toNat⟩⟩) =
      some (.command (invokeByte true n) (.read oid) []) := by
  rw [Sent.request_frame, Grammar.command, read_type_encode, (body_read_decodes oid).whole]
  rfl

theorem outcome_read (hobject : object oid = .ok t) (n : Nat) (c : Cells) :
    outcome c (Sent.frame ⟨n, .read ⟨oid.toNat⟩⟩) =
      some (.read ⟨.success, some (shown (c t).1).toRuby⟩) := by
  rw [outcome, request_read]
  change some (response c (.read oid) []) = _
  rw [response, hobject]

theorem outcome_refused {e : AccessError} (hobject : object oid = .error e) (n : Nat) (c : Cells) :
    outcome c (Sent.frame ⟨n, .read ⟨oid.toNat⟩⟩) = some (.read ⟨.failure (reason e), none⟩) := by
  rw [outcome, request_read]
  change some (response c (.read oid) []) = _
  rw [response, hobject]

end Values

section Histories

variable {t : DataType}

theorem last_of_sent {sent : List Sent} (h : ∀ c ∈ sent, store.stored t c.frame = none) :
    store.last t (sent.map Sent.frame) = none := by
  apply store.last_of_forall
  intro frame hframe
  obtain ⟨c, hc, rfl⟩ := List.mem_map.mp hframe
  exact h c hc

/-- A cell that nothing was stored in. -/
theorem cellsAfter_none {sent : List Sent} (h : ∀ c ∈ sent, store.stored t c.frame = none) :
    cellsAfter sent t = cells state t := by
  rw [cellsAfter, store.after_apply, last_of_sent h]
  rfl

/-- The cell behind a command that stored something in it, and others that did not. -/
theorem cellsAfter_last {c : Sent} {v : Slot t} (hstored : store.stored t c.frame = some v)
    (before : List Sent) {between : List Sent}
    (hbetween : ∀ c ∈ between, store.stored t c.frame = none) :
    cellsAfter (before ++ c :: between) t = v := by
  rw [cellsAfter, store.after_apply, List.map_append, store.last_append, List.map_cons,
    Registers.last, last_of_sent hbetween, hstored]
  rfl

/-- The cell behind a write and commands that leave the object alone. -/
theorem cellsAfter_write {oid : UInt32} (hobject : object oid = .ok t) {v : Datum Bytes}
    (hv : Holds t v) (k : Nat) (before : List Sent) {between : List Sent}
    (hbetween : ∀ c ∈ between, c.object? ≠ some oid) :
    cellsAfter (before ++ ⟨k, .write ⟨oid.toNat, v.toRuby⟩⟩ :: between) t = ⟨v, hv⟩ :=
  cellsAfter_last (stored_write hobject hv k) before
    fun c hc => stored_other hobject (hbetween c hc)

end Histories

/-- A call has one place among those in order. -/
theorem place_unique {sent before before' after after' : List Sent} {c c' : Sent}
    (hids : sent.Pairwise fun c c' => c.n < c'.n) (h : sent = before ++ c :: after)
    (h' : sent = before' ++ c' :: after') (hn : c.n = c'.n) : before = before' ∧ c = c' := by
  have hlater {bs as cs ds : List Sent} {b : Sent} {x y : Sent}
      (hsplit : sent = bs ++ x :: as) (hmore : x :: as = b :: cs ++ y :: ds) : x.n < y.n := by
    rw [hsplit] at hids
    obtain ⟨rfl, rfl⟩ := List.cons.inj hmore
    have hbehind := (List.pairwise_cons.mp (List.pairwise_append.mp hids).2.1).1
    exact hbehind y (List.mem_append_right cs List.mem_cons_self)
  rcases List.append_eq_append_iff.mp (h.symm.trans h') with ⟨bs, hbs, hmore⟩ | ⟨bs, hbs, hmore⟩
  · cases bs with
    | nil =>
      rw [List.append_nil] at hbs
      cases hmore
      exact ⟨hbs.symm, rfl⟩
    | cons b bs => exact absurd hn (Nat.ne_of_lt (hlater h hmore))
  · cases bs with
    | nil =>
      rw [List.append_nil] at hbs
      cases hmore
      exact ⟨hbs, rfl⟩
    | cons b bs => exact absurd hn.symm (Nat.ne_of_lt (hlater h' hmore))

section Samples

variable {w : World}

theorem world_client {a : Ruby.Client.Action} {s : Ruby.Client.State}
    (hown : ∀ n frame, a ≠ .answer n frame) (hsilent : ∀ type, a ≠ .transmit type)
    (h : Ruby.Client.Step w.client a s) :
    World.world.step w (.client a) = some { w with client := s } := by
  have hstep : Ruby.Client.step w.client a = some s := Ruby.Client.enabled h
  change w.act a = _
  cases a with
  | answer n frame => exact absurd rfl (hown n frame)
  | transmit type => exact absurd rfl (hsilent type)
  | _ => exact congrArg (Option.map _) hstep

theorem world_transmit (type : Ruby.CommandType) (hidle : w.client.caller = .idle)
    (hfits : (Sent.mk w.client.invokeId type).frame.length ≤ 1024) :
    World.world.step w (.client (.transmit type)) = some { w with
      client := { w.client with
        invokeId := w.client.invokeId + 1
        line := Function.update w.client.line w.client.invokeId
          (.command (Sent.mk w.client.invokeId type).frame)
        caller := .sent w.client.invokeId }
      wire := w.wire ++ [⟨w.client.invokeId, type⟩]
      sent := w.sent ++ [⟨w.client.invokeId, type⟩] } := by
  have hstep := Ruby.Client.enabled (Ruby.Client.Step.transmit type hidle)
  change w.act (.transmit type) = _
  rw [World.act, if_pos (Nat.le_trans hfits (by decide))]
  exact congrArg (Option.map _) hstep

theorem world_serve (left : Leftover) {c : Sent} {wire : List Sent} {bs : List UInt8}
    (hfirst : w.wire = c :: wire) (hfits : c.frame.length ≤ 1024)
    (hanswer : store.answer (TestServer.cells w.server) c.frame = some bs) :
    World.world.step w (.serve left) = some { w with
      client := { w.client with line := Function.update w.client.line c.n (.response bs) }
      wire := wire
      server := (TestServer.serve left w.server ⟨c.frame, hfits⟩).2 } := by
  have houtput : (TestServer.serve left w.server ⟨c.frame, hfits⟩).1 = some bs :=
    (congrArg Prod.fst (serve_store w.server left ⟨c.frame, hfits⟩)).symm.trans hanswer
  change w.serve left = _
  rw [World.serve, hfirst]
  dsimp only
  rw [dif_pos hfits]
  simp only [houtput]

/-- A call that times out before its command is done. -/
theorem timed_out (left : Leftover) (type : Ruby.CommandType) (bs : List UInt8)
    (hidle : w.client.caller = .idle) (hwire : w.wire = [])
    (hfits : (Sent.mk w.client.invokeId type).frame.length ≤ 1024)
    (hanswer : store.answer (TestServer.cells w.server)
      (Sent.mk w.client.invokeId type).frame = some bs) :
    ∃ w', System.Path World.world (fun _ _ => True) w w' ∧ w'.client.caller = .idle ∧
      w'.client.receiver = w.client.receiver ∧ w'.wire = [] ∧
      w'.client.invokeId = w.client.invokeId + 1 ∧
      w'.sent = w.sent ++ [⟨w.client.invokeId, type⟩] ∧
      w'.client.returned w.client.invokeId = some none := by
  let c : Sent := ⟨w.client.invokeId, type⟩
  have hfirst : w.wire ++ [c] = c :: [] := by rw [hwire]; rfl
  refine ⟨_, .cons trivial (world_transmit type hidle hfits) <|
    .cons trivial (world_client (by simp) (by simp) (.register w.client.invokeId rfl)) <|
    .cons trivial (world_client (by simp) (by simp) (.timeout w.client.invokeId rfl ?_)) <|
    .cons trivial (world_client (by simp) (by simp) (.unregister w.client.invokeId none rfl)) <|
    .cons trivial (world_serve left hfirst hfits hanswer) .nil, rfl, rfl, rfl, rfl, rfl, ?_⟩
  · simp
  · simp

/-- A reply that comes while its call waits. -/
theorem delivered {n : Nat} {bs : List UInt8} {msg : Ruby.Response}
    (hwaiting : w.client.caller = .waiting n) (hready : w.client.receiver = .ready)
    (hline : w.client.line n = .response bs) (hqueue : w.client.queue n = [])
    (hmsg : Ruby.MessageDecoder.decode bs = some (.response msg))
    (hpending : w.client.pending msg.invokeId = some n) :
    ∃ w', System.Path World.world (fun _ _ => True) w w' ∧ w'.sent = w.sent ∧
      w'.client.returned = Function.update w.client.returned n (some (some ⟨n, msg⟩)) := by
  refine ⟨_, .cons trivial (world_client (by simp) (by simp) (.arrive n bs hready hline)) <|
    .cons trivial (world_client (by simp) (by simp) (.decode n bs msg rfl hmsg)) <|
    .cons trivial (world_client (by simp) (by simp) (.find ⟨n, msg⟩ n rfl hpending)) <|
    .cons trivial (world_client (by simp) (by simp) (.push ⟨n, msg⟩ n rfl)) <|
    .cons trivial (world_client (by simp) (by simp) (.pop n ⟨n, msg⟩ [] hwaiting ?_)) <|
    .cons trivial (world_client (by simp) (by simp) (.unregister n (some ⟨n, msg⟩) rfl)) .nil,
    rfl, rfl⟩
  simp [hqueue]

/-- A call that is answered while it waits. -/
theorem exchange (left : Leftover) (type : Ruby.CommandType) (bs : List UInt8)
    (hidle : w.client.caller = .idle) (hready : w.client.receiver = .ready) (hwire : w.wire = [])
    (hid : w.client.invokeId < 128)
    (hfits : (Sent.mk w.client.invokeId type).frame.length ≤ 1024)
    (hanswer : store.answer (TestServer.cells w.server)
      (Sent.mk w.client.invokeId type).frame = some bs) :
    ∃ w' reply, System.Path World.world (fun _ _ => True) w w' ∧
      w'.sent = w.sent ++ [⟨w.client.invokeId, type⟩] ∧
      w'.client.returned =
        Function.update w.client.returned w.client.invokeId (some (some reply)) := by
  let c : Sent := ⟨w.client.invokeId, type⟩
  have hfirst : w.wire ++ [c] = c :: [] := by rw [hwire]; rfl
  obtain ⟨-, type', -, hdecode⟩ := c.reply_decodes hanswer
  have hmod : c.n % 128 = w.client.invokeId := Nat.mod_eq_of_lt hid
  obtain ⟨w', hpath, hwaiting, hready', hline, hqueue, hpending, hsent, hreturned⟩ :
      ∃ w', System.Path World.world (fun _ _ => True) w w' ∧
        w'.client.caller = .waiting c.n ∧ w'.client.receiver = .ready ∧
        w'.client.line c.n = .response bs ∧ w'.client.queue c.n = [] ∧
        w'.client.pending c.n = some c.n ∧ w'.sent = w.sent ++ [c] ∧
        w'.client.returned = w.client.returned := by
    refine ⟨_, .cons trivial (world_transmit type hidle hfits) <|
      .cons trivial (world_client (by simp) (by simp) (.register c.n rfl)) <|
      .cons trivial (world_serve left hfirst hfits hanswer) .nil,
      rfl, hready, ?_, ?_, ?_, rfl, rfl⟩
    all_goals exact Function.update_self _ _ _
  obtain ⟨w'', hpath', hsent', hreturned'⟩ :=
    delivered hwaiting hready' hline hqueue hdecode (by rw [← hpending, hmod])
  exact ⟨w'', _, hpath.trans hpath', hsent'.trans hsent, hreturned ▸ hreturned'⟩

/-- A write that times out, and a read that does not. -/
theorem late_write : ∃ w reply, World.world.Reachable w ∧
    w.sent = [⟨0, .write ⟨1, .u8 7⟩⟩, ⟨1, .read ⟨1⟩⟩] ∧
    w.client.returned 0 = some none ∧ w.client.returned 1 = some (some reply) := by
  obtain ⟨w, hpath, hidle, hready, hwire, hid, hsent, hreturned⟩ :=
    @timed_out World.start clean (.write ⟨1, .u8 7⟩) [4, 0x80, 0, 0] rfl rfl (by decide) rfl
  have hr : World.world.Reachable w := hpath
  obtain ⟨done, hdone⟩ := (linked_invariant.reachable hr).done
  have hcells : TestServer.cells w.server = cellsAfter [⟨0, .write ⟨1, .u8 7⟩⟩] := by
    have hall := hdone.sent
    rw [hwire, List.append_nil, hsent] at hall
    rw [hdone.cells, ← hall]
    rfl
  have hid' : w.client.invokeId = 1 := hid
  obtain ⟨w', reply, hpath', hsent', hreturned'⟩ :=
    exchange clean (.read ⟨1⟩) [4, 0x81, 1, 0, 1, 7] hidle hready hwire
      (by rw [hid']; decide) (by rw [hid']; decide) (by rw [hid', hcells]; rfl)
  rw [hid', hsent] at hsent'
  rw [hid'] at hreturned'
  refine ⟨w', reply, hpath.trans hpath', hsent', ?_, ?_⟩
  · rw [hreturned']
    exact hreturned
  · rw [hreturned']
    exact Function.update_self _ _ _

end Samples

/-- The calls take effect in their order, each at most once: the server has done a first part of
them, and what a call returns is what the store says to it behind those before it. -/
theorem calls_in_order {w : World} (h : World.world.Reachable w) :
    (w.sent.Pairwise fun c c' => c.n < c'.n) ∧
    (∃ done, w.sent = done ++ w.wire ∧ TestServer.cells w.server = cellsAfter done) ∧
    ∀ n reply, w.client.returned n = some (some reply) →
      ∃ before c after, w.sent = before ++ c :: after ∧ c.n = n ∧
        outcome (cellsAfter before) c.frame = some reply.msg.type := by
  have hlinked := linked_invariant.reachable h
  obtain ⟨done, hdone⟩ := hlinked.done
  exact ⟨hlinked.ids, ⟨done, hdone.sent, hdone.cells⟩, fun n reply => hlinked.returned⟩

theorem calls_in_order_late : ∃ w reply, World.world.Reachable w ∧
    w.client.returned 1 = some (some reply) ∧ ∃ before c after,
      w.sent = before ++ c :: after ∧ c.n = 1 ∧
        outcome (cellsAfter before) c.frame = some reply.msg.type := by
  obtain ⟨w, reply, hr, -, -, hreturned⟩ := late_write
  exact ⟨w, reply, hr, hreturned, (calls_in_order hr).2.2 1 reply hreturned⟩

end Aloof.Agreement
