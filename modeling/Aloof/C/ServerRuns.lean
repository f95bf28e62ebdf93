import Aloof.C.ServerEffects

namespace Aloof.C

open Framework

/-- The number of bytes that the value of a command announces after itself. -/
def Body.announced : Body UInt32 → Nat
  | .write _ data => (data.string?.map UInt32.toNat).getD 0
  | .read _ => 0

/-- A confirmed command with all of its bytes. -/
structure FullCommand where
  invokeField : UInt8
  tail : List UInt8
  body : Body UInt32
  payload : List UInt8
  confirmed : Server.isConfirmed invokeField = true
  parses : Grammar.body tail = .ok (body, payload)
  complete : payload.length = body.announced

def FullCommand.bytes (c : FullCommand) : List UInt8 := 3 :: c.invokeField :: c.tail

namespace Server

/-- What a caller keeps between two calls of aloof_server_process. -/
structure Session (σ : Type) where
  app : σ
  inp : Stream
  out : Stream

variable {σ : Type} (srv : Server σ)

def step (loc : Locals) (t : Session σ) : Session σ :=
  let r := srv.process loc t.app t.inp t.out
  ⟨r.app, r.inp, r.out⟩

/-- One call after the other; each finds other garbage in its locals. -/
def processMany : List Locals → Session σ → Session σ
  | [], t => t
  | loc :: locs, t => processMany locs (srv.step loc t)

/-- Verdicts and values that depend on the oid and the data type only. A refusal has its error. -/
structure Policy where
  refusesRead : UInt32 → Option AccessError
  value : UInt32 → Datum Bytes
  refusesWrite : UInt32 → DataType → Option AccessError

/-- Handlers that follow a policy whenever there is room for the value. -/
structure Follows (p : Policy) (read : ReadFn σ) (write : WriteFn σ) : Prop where
  read_accepts : ∀ app oid out, p.refusesRead oid = none →
    out.Fits (datumOctets (p.value oid)).length →
    (read app oid out).verdict = true ∧ (read app oid out).out = (Data.put (p.value oid) out).2
  read_refuses : ∀ app oid out e, p.refusesRead oid = some e →
    (read app oid out).verdict = false ∧ (read app oid out).error = some e
  read_output : AppendOnly read
  write_accepts : ∀ app oid data inp, p.refusesWrite oid data.type = none →
    (write app oid data inp).verdict = true
  write_refuses : ∀ app oid data inp e, p.refusesWrite oid data.type = some e →
    (write app oid data inp).verdict = false ∧ (write app oid data inp).error = some e
  write_input : StringOnly write

/-- The bytes that answer a command. -/
def Policy.response (p : Policy) (c : FullCommand) : List UInt8 :=
  match c.body with
  | .read oid =>
    match p.refusesRead oid with
    | none => [4, c.invokeField, 1, 0] ++ datumOctets (p.value oid)
    | some e => readFailure c.invokeField (accessErrorCode e).toUInt8
  | .write oid data =>
    match p.refusesWrite oid data.type with
    | none => [4, c.invokeField, 0, 0]
    | some e => [4, c.invokeField, 0, 1, (accessErrorCode e).toUInt8]

variable (loc : Locals) (app : σ) (inp out : Stream) (c : FullCommand)

theorem process_full (more : List UInt8) (hrest : inp.rest = c.bytes ++ more) :
    process srv loc app inp out = processBody srv loc app c.invokeField (inp.skip 2) out ∧
    Grammar.body (inp.skip 2).rest = .ok (c.body, c.payload ++ more) := by
  have htail : inp.rest = 3 :: c.invokeField :: (c.tail ++ more) := hrest
  obtain ⟨hrun, htl⟩ := process_command srv loc app c.invokeField inp out htail
  rw [htl, hrun, rollback_confirmed c.confirmed]
  exact ⟨rfl, Grammar.body_stable _ _ _ c.parses more⟩

/-- Behind what is parsed of a command come the bytes of its string, and then what follows it. -/
theorem skip_payload (more : List UInt8) (hrest : inp.rest = c.bytes ++ more) :
    ((inp.skip 2).after (c.payload ++ more)).rest = c.payload ++ more ∧
    ((inp.skip 2).after (c.payload ++ more)).skip c.payload.length = inp.skip c.bytes.length := by
  have htotal : inp.rest.length = c.bytes.length + more.length := by
    rw [hrest, List.length_append]
  have hbytes : c.bytes.length = c.tail.length + 2 := rfl
  have hskip : (inp.skip 2).rest = c.tail ++ more := by
    rw [Stream.rest_skip (by omega), hrest]
    rfl
  have hbody := Grammar.body_stable _ _ _ c.parses more
  rw [← hskip] at hbody
  have hpayload := ((parseBody_implements 0 (inp.skip 2)).after hbody).2
  have hlen := Stream.length_le_of_after hpayload
  rw [hskip, List.length_append, List.length_append] at hlen
  have hfit : c.tail.length + more.length - (c.payload.length + more.length) +
      c.payload.length ≤ (inp.skip 2).rest.length := by
    rw [hskip, List.length_append]
    omega
  refine ⟨hpayload, ?_⟩
  rw [Stream.after, hskip, List.length_append, List.length_append, Stream.skip_skip hfit,
    Stream.skip_skip (by omega)]
  congr 1
  omega

/-- Whatever the write handler took of a string, the input ends up behind the command. -/
theorem process_full_inp (hwrite : StringOnly srv.writeHandler) (more : List UInt8)
    (hrest : inp.rest = c.bytes ++ more) :
    (process srv loc app inp out).inp = inp.skip c.bytes.length := by
  obtain ⟨hrun, hbody⟩ := process_full srv loc app inp out c more hrest
  obtain ⟨hpayload, hend⟩ := skip_payload inp c more hrest
  have hcomplete := c.complete
  rw [hrun]
  cases hb : c.body with
  | read oid =>
    rw [hb] at hbody hcomplete
    change c.payload.length = 0 at hcomplete
    rw [hcomplete, Stream.skip_zero] at hend
    rw [(processBody_read srv loc app c.invokeField (inp.skip 2) out hbody).1, respondRead_eq]
    exact hend
  | write oid data =>
    rw [hb] at hbody hcomplete
    obtain ⟨n, -, hs⟩ :=
      processBody_write_inp srv loc app c.invokeField (inp.skip 2) out hwrite hbody
    rw [hs, ← hend]
    rw [Body.announced] at hcomplete
    cases hsize : data.string? with
    | none =>
      rw [hsize] at hcomplete
      rw [hcomplete]
      exact (Stream.skip_zero _).symm
    | some size =>
      rw [hsize] at hcomplete
      have hrestlen := ((inp.skip 2).after (c.payload ++ more)).length_rest_le
      have hbuf := ((inp.skip 2).after (c.payload ++ more)).length_lt
      have hpos := ((inp.skip 2).after (c.payload ++ more)).pos_le_length
      have hfit : c.payload.length ≤ ((inp.skip 2).after (c.payload ++ more)).rest.length := by
        rw [hpayload, List.length_append]
        omega
      refine Stream.seekSet_skip n hfit ?_
      rw [UInt32.toNat_add, hcomplete]
      change _ = _ + size.toNat
      change c.payload.length = size.toNat at hcomplete
      omega

section Answers

variable {srv} {p : Policy} {read : ReadFn σ} {write : WriteFn σ}

/-- The value comes right behind the header. -/
theorem respondRead_accepts (hread : srv.read = some read) (hp : Follows p read write) (inv : UInt8)
    {oid : UInt32} (hr : p.refusesRead oid = none)
    (hroom : 4 + (datumOctets (p.value oid)).length ≤ out.room) :
    Stream.Alike (respondRead srv loc app inv oid inp out).out
      (out.push ([4, inv, 1, 0] ++ datumOctets (p.value oid))) := by
  have hhandler := readHandler_of_some hread
  obtain ⟨hok, -⟩ := respondRead_out srv loc app inv inp out oid (hhandler.symm ▸ hp.read_output)
  rw [hhandler] at hok
  have hfit : (out.push [4, inv, 1, 0]).Fits (datumOctets (p.value oid)).length := by
    rw [Stream.fits_iff_le_room (datumOctets_pos _), Stream.room_push]
    exact Nat.le_sub_of_add_le' hroom
  obtain ⟨hv, hout⟩ := hp.read_accepts app oid _ hr hfit
  rw [hok hv, hout, (Data.put_appends _).ok hfit, ← Stream.push_of_le hfit.2, Stream.push_push]
  exact .refl _

theorem respondRead_refuses (hread : srv.read = some read) (hp : Follows p read write) (inv : UInt8)
    {oid : UInt32} {e : AccessError} (hr : p.refusesRead oid = some e) :
    Stream.Alike (respondRead srv loc app inv oid inp out).out
      (out.push (readFailure inv (accessErrorCode e).toUInt8)) := by
  have hhandler := readHandler_of_some hread
  obtain ⟨-, hfail⟩ := respondRead_out srv loc app inv inp out oid (hhandler.symm ▸ hp.read_output)
  rw [hhandler] at hfail
  obtain ⟨hv, herror⟩ := hp.read_refuses app oid (out.push [4, inv, 1, 0]) e hr
  have halike := hfail hv
  rw [herror] at halike
  exact halike

/-- The data have a place in the input by then, and the type that they had without one. -/
theorem respondWrite_follows (hwrite : srv.write = some write) (hp : Follows p read write)
    (inv : UInt8) (oid : UInt32) (data : Datum UInt32) :
    (respondWrite srv loc app inv oid (placed data inp) inp out).out =
      out.push (match p.refusesWrite oid data.type with
        | none => [4, inv, 0, 0]
        | some e => [4, inv, 0, 1, (accessErrorCode e).toUInt8]) := by
  have htype : (placed data inp).type = data.type := Datum.type_map _ _
  rw [respondWrite_eq, writeHandler_of_some hwrite]
  dsimp only
  cases hr : p.refusesWrite oid data.type with
  | none =>
    rw [← htype] at hr
    have hv := hp.write_accepts app oid _ inp hr
    rw [writeReply, hv]
    rfl
  | some e =>
    rw [← htype] at hr
    obtain ⟨hv, herror⟩ := hp.write_refuses app oid _ inp e hr
    rw [writeReply, hv, herror]
    rfl

end Answers

theorem process_full_out {p : Policy} {read : ReadFn σ} {write : WriteFn σ}
    (hread : srv.read = some read) (hwrite : srv.write = some write) (hp : Follows p read write)
    (more : List UInt8) (hrest : inp.rest = c.bytes ++ more)
    (hroom : (p.response c).length ≤ out.room) :
    Stream.Alike (process srv loc app inp out).out (out.append (p.response c)) := by
  obtain ⟨hrun, hbody⟩ := process_full srv loc app inp out c more hrest
  rw [← Stream.push_of_le hroom, hrun]
  unfold Policy.response at hroom ⊢
  cases hb : c.body with
  | read oid =>
    rw [hb] at hbody hroom
    rw [(processBody_read srv loc app c.invokeField (inp.skip 2) out hbody).1]
    dsimp only at hroom ⊢
    cases hr : p.refusesRead oid with
    | none =>
      rw [hr] at hroom
      dsimp only at hroom ⊢
      rw [List.length_append] at hroom
      exact respondRead_accepts loc app _ out hread hp c.invokeField hr hroom
    | some e => exact respondRead_refuses loc app _ out hread hp c.invokeField hr
  | write oid data =>
    rw [hb] at hbody
    rw [(processBody_write srv loc app c.invokeField (inp.skip 2) out hbody).1,
      respondWrite_follows loc app _ out hwrite hp c.invokeField oid data]
    exact .refl _

theorem processMany_full {p : Policy} {read : ReadFn σ} {write : WriteFn σ}
    (hread : srv.read = some read) (hwrite : srv.write = some write) (hp : Follows p read write)
    (cmds : List (Locals × FullCommand)) (more : List UInt8) (t : Session σ)
    (hrest : t.inp.rest = (cmds.map (·.2.bytes)).flatten ++ more)
    (hroom : (cmds.map fun c => p.response c.2).flatten.length ≤ t.out.room) :
    (processMany srv (cmds.map Prod.fst) t).inp =
      t.inp.skip (cmds.map (·.2.bytes)).flatten.length ∧
    Stream.Alike (processMany srv (cmds.map Prod.fst) t).out
      (t.out.append (cmds.map fun c => p.response c.2).flatten) := by
  induction cmds generalizing t with
  | nil =>
    simp only [List.map_nil, processMany, List.flatten_nil, List.length_nil, Stream.skip_zero,
      Stream.append_nil]
    exact ⟨trivial, .refl _⟩
  | cons c cmds ih =>
    obtain ⟨loc, c⟩ := c
    have hstrings : StringOnly srv.writeHandler := writeHandler_stringOnly srv fun _ h => by
      cases hwrite.symm.trans h
      exact hp.write_input
    simp only [List.map_cons, List.flatten_cons, List.append_assoc] at hrest
    simp only [List.map_cons, List.flatten_cons, List.length_append] at hroom
    have hinp := process_full_inp srv loc t.app t.inp t.out c hstrings _ hrest
    have hout := process_full_out srv loc t.app t.inp t.out c hread hwrite hp _ hrest (by omega)
    have hnext : (t.inp.skip c.bytes.length).rest = (cmds.map (·.2.bytes)).flatten ++ more := by
      rw [Stream.rest_skip (by rw [hrest, List.length_append]; omega), hrest]
      exact List.drop_left
    have hleft := hout.room
    rw [Stream.room_append (by omega)] at hleft
    obtain ⟨hinp', hout'⟩ := ih (srv.step loc t) (by rw [← hnext, ← hinp]; rfl)
      (by change _ ≤ (process srv loc t.app t.inp t.out).out.room; omega)
    change (processMany srv (cmds.map Prod.fst) (srv.step loc t)).inp = _ ∧ Stream.Alike
      (processMany srv (cmds.map Prod.fst) (srv.step loc t)).out _
    simp only [List.map_cons, List.flatten_cons, List.length_append]
    constructor
    · rw [hinp']
      change (process srv loc t.app t.inp t.out).inp.skip _ = _
      rw [hinp]
      exact Stream.skip_skip (by rw [hrest]; simp only [List.length_append]; omega)
    · rw [← Stream.append_append (by omega)]
      exact hout'.trans (hout.append (by omega))

/-- What a command outputs when it is all there is, with fresh streams and room enough. -/
def Alone (p : Policy) (c : FullCommand) (bs : List UInt8) : Prop :=
  ∃ (loc : Locals) (app : σ) (out : Stream) (h : c.bytes.length < 2^32),
    out.pos = 0 ∧ (p.response c).length ≤ out.room ∧
    bs = (process srv loc app (Stream.initRo c.bytes h) out).out.content

theorem alone_eq {p : Policy} {read : ReadFn σ} {write : WriteFn σ}
    (hread : srv.read = some read) (hwrite : srv.write = some write) (hp : Follows p read write)
    {bs : List UInt8} (h : Alone srv p c bs) : bs = p.response c := by
  obtain ⟨loc, app, out, hlen, hpos, hroom, rfl⟩ := h
  have hrest : (Stream.initRo c.bytes hlen).rest = c.bytes ++ [] := by
    rw [Stream.rest_initRo, List.append_nil]
  have hout := process_full_out srv loc app _ out c hread hwrite hp [] hrest hroom
  rw [hout.content, Stream.content_append hroom, Stream.content, hpos]
  rfl

/-- Commands that follow each other are taken one by one and do not see each other. -/
theorem back_to_back {p : Policy} {read : ReadFn σ} {write : WriteFn σ}
    (hread : srv.read = some read) (hwrite : srv.write = some write) (hp : Follows p read write)
    (cmds : List (Locals × FullCommand)) (more : List UInt8) (t : Session σ)
    (hrest : t.inp.rest = (cmds.map (·.2.bytes)).flatten ++ more)
    (hroom : (cmds.map fun c => p.response c.2).flatten.length ≤ t.out.room)
    (alone : FullCommand → List UInt8) (halone : ∀ c ∈ cmds, Alone srv p c.2 (alone c.2))
    (n : Nat) :
    let done := cmds.take n
    let t' := processMany srv (done.map Prod.fst) t
    t'.inp.pos.toNat = t.inp.pos.toNat + (done.map (·.2.bytes)).flatten.length ∧
    t'.out.content = t.out.content ++ (done.map fun c => alone c.2).flatten := by
  intro done t'
  have hsplit : cmds = done ++ cmds.drop n := (List.take_append_drop n cmds).symm
  have hbytes : t.inp.rest = (done.map (·.2.bytes)).flatten ++
      (((cmds.drop n).map (·.2.bytes)).flatten ++ more) := by
    rw [hrest, ← List.append_assoc, ← List.flatten_append, ← List.map_append, ← hsplit]
  have hfit : (done.map fun c => p.response c.2).flatten.length ≤ t.out.room := by
    rw [hsplit, List.map_append, List.flatten_append, List.length_append] at hroom
    omega
  have hsame : (done.map fun c => alone c.2) = done.map fun c => p.response c.2 := by
    apply List.map_congr_left
    intro c hc
    exact alone_eq srv c.2 hread hwrite hp (halone c (List.mem_of_mem_take hc))
  obtain ⟨hinp, hout⟩ := processMany_full srv hread hwrite hp done _ t hbytes hfit
  have hskip : (done.map (·.2.bytes)).flatten.length ≤ t.inp.rest.length := by
    rw [hbytes, List.length_append]
    omega
  constructor
  · rw [hinp, Stream.toNat_pos_skip (Nat.le_trans hskip t.inp.length_rest_le)]
  · rw [hout.content, Stream.content_append hfit, hsame]

def meterPolicy : Policy where
  refusesRead _ := none
  value _ := .u8 7
  refusesWrite oid _ := if oid = 0 then some .access else none

theorem meter_follows : Follows meterPolicy meterRead meterWrite where
  read_accepts _ _ _ _ hfit := ⟨congrArg Prod.fst ((Data.put_appends _).ok hfit), rfl⟩
  read_refuses _ _ _ _ h := by cases h
  read_output _ _ out := (Data.put_appends _).writes out
  write_accepts _ oid _ _ h := by
    by_cases hoid : oid = 0
    · simp [meterPolicy, hoid] at h
    · exact bne_iff_ne.mpr hoid
  write_refuses _ oid _ _ e h := by
    by_cases hoid : oid = 0
    · simp only [meterPolicy, hoid, if_true] at h
      subst hoid
      exact ⟨rfl, h⟩
    · simp [meterPolicy, hoid] at h
  write_input _ _ _ _ := .step 1 (.refl _ _)

/-- A write of a string to object 5. -/
def writeHi : FullCommand := ⟨0x81, [0, 5, 12, 2, 104, 105], .write 5 (.string 2), [104, 105],
  by decide, rfl, rfl⟩

/-- A read of object 6. -/
def readSix : FullCommand := ⟨0x82, [1, 6], .read 6, [], by decide, rfl, rfl⟩

/-- Both, with a byte before them and another after, behind a byte of earlier output. -/
theorem back_to_back_meter :
    let t : Session Unit := ⟨(),
      streamAt [0, 3, 0x81, 0, 5, 12, 2, 104, 105, 3, 0x82, 1, 6, 0] (by decide) 1,
      streamAt [9, 0, 0, 0, 0, 0, 0, 0, 0, 0, 0, 0] (by decide) 1⟩
    let t' := processMany meter [zeroed, zeroed] t
    t'.inp.pos.toNat = 1 + 12 ∧ t'.out.content = [9] ++ [4, 0x81, 0, 0, 4, 0x82, 1, 0, 1, 7] := by
  intro t
  have halone (c : FullCommand) (hlen : c.bytes.length < 2^32)
      (hout : meterPolicy.response c = (process meter zeroed () (Stream.initRo c.bytes hlen)
        (streamAt [0, 0, 0, 0, 0, 0] (by decide) 0)).out.content)
      (hroom : (meterPolicy.response c).length ≤ 6) :
      Alone meter meterPolicy c (meterPolicy.response c) :=
    ⟨zeroed, (), streamAt [0, 0, 0, 0, 0, 0] (by decide) 0, hlen, rfl, hroom, hout⟩
  have hboth : ∀ c ∈ [(zeroed, writeHi), (zeroed, readSix)],
      Alone meter meterPolicy c.2 (meterPolicy.response c.2) := by
    simp only [List.forall_mem_cons, List.not_mem_nil, false_implies, implies_true, and_true]
    exact ⟨halone writeHi (by decide) (by decide) (by decide),
      halone readSix (by decide) (by decide) (by decide)⟩
  exact back_to_back meter rfl rfl meter_follows [(zeroed, writeHi), (zeroed, readSix)] [0] t
    rfl (by decide) meterPolicy.response hboth 2

end Server

end Aloof.C
