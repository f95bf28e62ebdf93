import Aloof.C.Server
import Aloof.C.DataProof

namespace Aloof.C

open Framework

/-- What follows the invoke field of a command, as far as the server understands it. -/
inductive Body (σ : Type) where
  | write (oid : UInt32) (data : Datum σ)
  | read (oid : UInt32)

def Body.map {σ τ : Type} (f : σ → τ) : Body σ → Body τ
  | write oid data => write oid (data.map f)
  | read oid => read oid

def Grammar.body : Decoder Unit UInt8 (Body UInt32) := do
  let commandType ← octet
  if commandType = commandTypeCode .write then do
    let oid ← uint
    let data ← data
    return .write oid data
  else if commandType = commandTypeCode .read then do return .read (← uint)
  else Decoder.fail ()

def Grammar.hello : Decoder Unit UInt8 Hello := do
  let station ← octet
  match Server.stations[station.toNat]? with
  | none => Decoder.fail ()
  | some station =>
    let version ← uint
    let features ← u32
    return ⟨station, version, features⟩

theorem Grammar.body_stable : Decoder.Stable body := by
  apply octet_stable.bind
  intro commandType
  split_ifs
  · exact uint_stable.bind fun oid => data_stable.map (Body.write oid)
  · exact uint_stable.map Body.read
  · exact .fail ()

/-- A datum of the grammar as it is received: a string starts where the input stands. -/
def placed (hd : Datum UInt32) (s : Stream) : DataRx := hd.map fun size => ⟨size, s.pos⟩

theorem eq_placed {d : DataRx} {s : Stream} (h : ∀ w, d.string? = some w → w.start = s.pos) :
    d = placed (d.map StringRx.size) s := by
  cases d
  case string w => exact congrArg Datum.string (congrArg (StringRx.mk w.size) (h w rfl))
  case blob w => exact congrArg Datum.blob (congrArg (StringRx.mk w.size) (h w rfl))
  all_goals rfl

namespace Server

variable {σ : Type} (srv : Server σ) (loc : Locals) (app : σ) (inv : UInt8) (inp out : Stream)

theorem void_putU8 (b : UInt8) (s : Stream) : (Oer.putU8 b).void s = s.push [b] :=
  (Oer.putU8_appends b).void_singleton s

/-- The rollback that ends a COMMAND. -/
def rollback (inv : UInt8) (startOffset : UInt32) (r : Outcome σ) : Outcome σ :=
  if isConfirmed inv then r else { r with out := (r.out.seekSet startOffset).2 }

theorem rollback_confirmed {inv : UInt8} (h : isConfirmed inv = true) (startOffset : UInt32)
    (r : Outcome σ) : rollback inv startOffset r = r := by
  rw [rollback, if_pos h]

@[simp] theorem rollback_inp (startOffset : UInt32) (r : Outcome σ) :
    (rollback inv startOffset r).inp = r.inp := by
  unfold rollback
  split_ifs <;> rfl

@[simp] theorem rollback_calls (startOffset : UInt32) (r : Outcome σ) :
    (rollback inv startOffset r).calls = r.calls := by
  unfold rollback
  split_ifs <;> rfl

theorem process_command {tl : List UInt8} (h : inp.rest = 3 :: inv :: tl) :
    process srv loc app inp out =
      rollback inv inp.pos (processBody srv loc app inv (inp.skip 2) out) ∧
    (inp.skip 2).rest = tl := by
  have hmsg := (Oer.getU8_of_cons h).2
  have hrest : (inp.skip 1).rest = inv :: tl := by rw [Stream.rest_skip (by simp [h]), h]; rfl
  have hinv := (Oer.getU8_of_cons hrest).2
  rw [Stream.skip_skip (by simp [h])] at hinv
  refine ⟨?_, by rw [Stream.rest_skip (by simp [h]), h]; rfl⟩
  simp only [process, processCommand, hmsg, hinv, rollback, Option.isSome_some, Option.getD_some,
    if_true, Stream.tell]
  cases isConfirmed inv <;> rfl

theorem process_nil (h : inp.rest = []) : process srv loc app inp out = ⟨app, inp, out, []⟩ := by
  simp only [process, Oer.getU8_of_nil h]
  rfl

theorem process_hello {tl : List UInt8} (h : inp.rest = 0 :: tl) :
    process srv loc app inp out = processHello srv loc app (inp.skip 1) out := by
  simp only [process, (Oer.getU8_of_cons h).2]
  rfl

theorem processHello_inp :
    (processHello srv loc app inp out).inp = (getHello loc.scratch inp).2 := by
  unfold processHello
  dsimp only
  split_ifs <;> rfl

theorem processHello_calls : (processHello srv loc app inp out).calls = [] := by
  unfold processHello
  dsimp only
  split_ifs <;> rfl

/-- A COMMAND cut off before its invoke field. -/
theorem process_truncated (h : inp.rest = [3]) :
    process srv loc app inp out =
      rollback loc.invokeField inp.pos ⟨app, inp.skip 1, out, []⟩ := by
  have hrest : (inp.skip 1).rest = [] := by rw [Stream.rest_skip (by simp [h]), h]; rfl
  simp only [process, processCommand, (Oer.getU8_of_cons h).2, Oer.getU8_of_nil hrest, rollback,
    Option.isSome_some, Option.getD_some, Option.getD_none, if_true, Stream.tell]
  cases isConfirmed loc.invokeField <;> rfl

theorem process_other {b : UInt8} {tl : List UInt8} (h : inp.rest = b :: tl) (h0 : b ≠ 0)
    (h3 : b ≠ 3) : process srv loc app inp out = ⟨app, inp.skip 1, out, []⟩ := by
  simp only [process, (Oer.getU8_of_cons h).2, Option.isSome_some, Option.getD_some, if_true]
  rw [if_neg (by exact h0), if_neg (by exact h3)]

/-- What aloof_server_process tells apart at the front of its input. -/
inductive Front : List UInt8 → Prop where
  | nil : Front []
  | hello (tl : List UInt8) : Front (0 :: tl)
  | truncated : Front [3]
  | command (inv : UInt8) (tl : List UInt8) : Front (3 :: inv :: tl)
  | other (b : UInt8) (tl : List UInt8) (h0 : b ≠ 0) (h3 : b ≠ 3) : Front (b :: tl)

theorem front (bs : List UInt8) : Front bs := by
  cases bs with
  | nil => exact .nil
  | cons b tl =>
    by_cases h0 : b = 0
    · subst h0
      exact .hello tl
    by_cases h3 : b = 3
    · subst h3
      cases tl with
      | nil => exact .truncated
      | cons inv tl => exact .command inv tl
    · exact .other b tl h0 h3

theorem getHello_implements (scratch : UInt8) : (getHello scratch).Implements Grammar.hello := by
  apply Oer.getU8_implements.bind
  intro station
  rcases stations[station.toNat]? with _ | station
  · exact Getter.Implements.fail ()
  · exact (Oer.getUint_implements scratch).bind fun version =>
      Oer.getU32_implements.map (Hello.mk station version)

/-- The reading done by the switch on the command type. -/
def parseBody (scratch : UInt8) : Getter (Body StringRx) := do
  let commandType ← Oer.getU8
  if commandType = commandTypeCode .write then do
    let oid ← Oer.getUint scratch
    let data ← Data.get scratch
    return .write oid data
  else if commandType = commandTypeCode .read then do return .read (← Oer.getUint scratch)
  else Getter.fail

theorem parseBody_implements (scratch : UInt8) :
    (do return (← parseBody scratch).map StringRx.size : Getter (Body UInt32)).Implements
      Grammar.body := by
  simp only [parseBody, bind_assoc]
  apply Oer.getU8_implements.bind
  intro commandType
  split_ifs
  · simp only [bind_assoc]
    apply (Oer.getUint_implements scratch).bind
    intro oid
    simpa only [bind_assoc, pure_bind, Body.map] using
      (Data.get_implements scratch).map (Body.write oid)
  · simpa only [bind_assoc, pure_bind, Body.map] using
      (Oer.getUint_implements scratch).map Body.read
  · exact Getter.Implements.fail ()

theorem processBody_eq : processBody srv loc app inv inp out =
    match parseBody loc.scratch inp with
    | (some (.write oid data), inp) => respondWrite srv loc app inv oid data inp out
    | (some (.read oid), inp) => respondRead srv loc app inv oid inp out
    | (none, inp) => ⟨app, inp, out, []⟩ := by
  unfold processBody parseBody
  rcases hc : Oer.getU8 inp with ⟨_ | commandType, s⟩
  · rw [Getter.bind_of_none hc]
    rfl
  rw [Getter.bind_of_some hc]
  simp only [Option.isSome_some, Option.getD_some, if_true]
  by_cases hw : commandType = commandTypeCode .write
  · rw [if_pos hw, if_pos hw, processWrite]
    rcases ho : Oer.getUint loc.scratch s with ⟨_ | oid, t⟩
    · rw [Getter.bind_of_none ho]
      rfl
    rw [Getter.bind_of_some ho]
    rcases hd : Data.get loc.scratch t with ⟨_ | data, u⟩
    · rw [Getter.bind_of_none hd]
      rfl
    · rw [Getter.bind_of_some hd]
      rfl
  rw [if_neg hw, if_neg hw]
  by_cases hr : commandType = commandTypeCode .read
  · rw [if_pos hr, if_pos hr, processRead]
    rcases ho : Oer.getUint loc.scratch s with ⟨_ | oid, t⟩
    · rw [Getter.bind_of_none ho]
      rfl
    · rw [Getter.bind_of_some ho]
      rfl
  · rw [if_neg hr, if_neg hr]
    rfl

theorem parseBody_start {scratch : UInt8} {s s' : Stream} {oid : UInt32} {d : DataRx}
    {w : StringRx} (h : parseBody scratch s = (some (.write oid d), s'))
    (hw : d.string? = some w) : w.start = s'.pos := by
  obtain ⟨commandType, t, -, hrun⟩ := Getter.bind_eq_some h
  split_ifs at hrun
  · obtain ⟨_, t', -, hrun⟩ := Getter.bind_eq_some hrun
    obtain ⟨data, t'', hget, hrun⟩ := Getter.bind_eq_some hrun
    cases hrun
    exact Data.get_start hget hw
  · obtain ⟨_, t', -, hrun⟩ := Getter.bind_eq_some hrun
    cases hrun
  · cases hrun

theorem processBody_error (h : Grammar.body inp.rest = .error ()) :
    ∃ n ≤ inp.rest.length, processBody srv loc app inv inp out = ⟨app, inp.skip n, out, []⟩ := by
  obtain ⟨n, hn, hrun⟩ := (parseBody_implements loc.scratch inp).error h
  refine ⟨n, hn, ?_⟩
  simp only [Bind.bind] at hrun
  rw [processBody_eq]
  rcases hp : parseBody loc.scratch inp with ⟨_ | b, s⟩
  · rw [hp] at hrun
    cases hrun
    rfl
  · rw [hp] at hrun
    cases hrun

theorem parseBody_write (scratch : UInt8) {s : Stream} {oid : UInt32} {hd : Datum UInt32}
    {tl : List UInt8} (h : Grammar.body s.rest = .ok (.write oid hd, tl)) :
    parseBody scratch s = (some (.write oid (placed hd (s.after tl))), s.after tl) ∧
    (s.after tl).rest = tl := by
  obtain ⟨hrun, htl⟩ := Getter.ImplementsAt.after (parseBody_implements scratch s) h
  obtain ⟨b, t, hp, hb⟩ := Getter.bind_eq_some hrun
  refine ⟨?_, htl⟩
  cases b with
  | read oid => cases hb
  | write oid' d =>
    cases hb
    have hplaced := eq_placed fun w hw => parseBody_start hp hw
    rw [hp, ← hplaced]

theorem processBody_write {oid : UInt32} {hd : Datum UInt32} {tl : List UInt8}
    (h : Grammar.body inp.rest = .ok (.write oid hd, tl)) :
    processBody srv loc app inv inp out =
      respondWrite srv loc app inv oid (placed hd (inp.after tl)) (inp.after tl) out ∧
    (inp.after tl).rest = tl := by
  obtain ⟨hparse, htl⟩ := parseBody_write loc.scratch h
  refine ⟨?_, htl⟩
  rw [processBody_eq, hparse]

theorem processBody_read {oid : UInt32} {tl : List UInt8}
    (h : Grammar.body inp.rest = .ok (.read oid, tl)) :
    processBody srv loc app inv inp out = respondRead srv loc app inv oid (inp.after tl) out ∧
    (inp.after tl).rest = tl := by
  obtain ⟨hrun, htl⟩ := (parseBody_implements loc.scratch inp).after h
  obtain ⟨b, s, hp, hb⟩ := Getter.bind_eq_some hrun
  refine ⟨?_, htl⟩
  rw [processBody_eq, hp]
  cases b with
  | write oid' d => cases hb
  | read oid =>
    cases hb
    rfl

/-- The read handler uses the output stream for output only. -/
def AppendOnly (read : ReadFn σ) : Prop := ∀ app oid out, Writes out (read app oid out).out

/-- The write handler touches the input through aloof_data_get_string only. -/
def StringOnly (write : WriteFn σ) : Prop :=
  ∀ app oid data inp,
    StringReads data inp (write app oid data inp).data (write app oid data inp).inp

/-- The write handler; a server without one answers as this one does. -/
def writeHandler (srv : Server σ) : WriteFn σ :=
  srv.write.getD fun app _ data inp => ⟨false, some .unknown, app, data, inp⟩

/-- The read handler; a server without one answers as this one does. -/
def readHandler (srv : Server σ) : ReadFn σ :=
  srv.read.getD fun app _ out => ⟨true, none, app, out.push [1, 0]⟩

theorem writeHandler_of_some {srv : Server σ} {write : WriteFn σ} (h : srv.write = some write) :
    srv.writeHandler = write := by
  rw [writeHandler, h]
  rfl

theorem readHandler_of_some {srv : Server σ} {read : ReadFn σ} (h : srv.read = some read) :
    srv.readHandler = read := by
  rw [readHandler, h]
  rfl

/-- The bytes of a write response. -/
def writeReply (loc : Locals) (inv : UInt8) (r : WriteResult σ) : List UInt8 :=
  4 :: inv :: 0 :: if r.verdict then [0] else [1, errorByte loc r.error]

/-- The bytes of a read response that reports a failure. -/
def readFailure (inv err : UInt8) : List UInt8 := [4, inv, 1, 1, err]

/-- Move to the end of a string that starts at the offset. -/
def settle (offset : UInt32) (d : DataRx) (s : Stream) : Stream :=
  match d.string? with
  | some w => (s.seekSet (offset + w.size)).2
  | none => s

theorem settle_size (offset : UInt32) (d : DataRx) (s : Stream) :
    settle offset d s = match d.string?.map StringRx.size with
      | some size => (s.seekSet (offset + size)).2
      | none => s := by
  unfold settle
  cases d.string? <;> rfl

@[simp] theorem string?_placed (hd : Datum UInt32) (s : Stream) :
    (placed hd s).string?.map StringRx.size = hd.string? := by
  cases hd <;> rfl

theorem placed_size (hd : Datum UInt32) (s : Stream) : (placed hd s).map StringRx.size = hd := by
  cases hd <;> rfl

/-- What a handler does to a value through aloof_data_get_string leaves its size alone. -/
theorem reads_string? {hd : Datum UInt32} {s t t' : Stream} {d : DataRx}
    (h : StringReads (placed hd s) t d t') : d.string?.map StringRx.size = hd.string? := by
  have hmap := congrArg Datum.string? h.moves.2
  rwa [Datum.string?_map, Datum.string?_map, string?_placed] at hmap

section Respond

variable (oid : UInt32) (data : DataRx)

private theorem settle_eq (offset : UInt32) (o : Outcome σ) (d : DataRx) :
    (match d.string? with
    | some s =>
      if o.inp.tell ≠ offset + s.size then { o with inp := (o.inp.seekSet (offset + s.size)).2 }
      else o
    | none => o) = { o with inp := settle offset d o.inp } := by
  unfold settle
  cases d.string? with
  | none => rfl
  | some w =>
    dsimp only
    split_ifs with h
    · rfl
    · rw [← not_ne_iff.mp h, Stream.tell, Stream.seekSet_pos]

theorem respondWrite_eq : respondWrite srv loc app inv oid data inp out =
    let r := srv.writeHandler app oid data inp
    ⟨r.app, settle inp.pos r.data r.inp, out.push (writeReply loc inv r),
      if srv.write.isSome then [.write oid data inp] else []⟩ := by
  unfold respondWrite writeHandler writeReply
  cases srv.write with
  | none =>
    simp only [void_putU8, Stream.push_push]
    exact settle_eq inp.pos ⟨app, inp, _, []⟩ data
  | some write =>
    simp only [void_putU8, Stream.push_push, Option.getD_some]
    have hw := settle_eq inp.pos
      ⟨(write app oid data inp).app, (write app oid data inp).inp,
        out.push (writeReply loc inv (write app oid data inp)), [.write oid data inp]⟩
      (write app oid data inp).data
    unfold writeReply at hw
    cases hv : (write app oid data inp).verdict <;> rw [hv] at hw <;> exact hw

theorem respondRead_eq : respondRead srv loc app inv oid inp out =
    let o := out.push [4, inv, 1, 0]
    let r := srv.readHandler app oid o
    ⟨r.app, inp, if r.verdict then r.out
      else (r.out.seekSet (out.push [4, inv, 1]).pos).2.push [1, errorByte loc r.error],
      if srv.read.isSome then [.read oid o] else []⟩ := by
  unfold respondRead readHandler
  cases srv.read with
  | none =>
    simp only [void_putU8, Option.getD_none, if_true, Stream.push_push]
    rfl
  | some read =>
    simp only [void_putU8, Stream.push_push, Option.getD_some]
    rfl

theorem writeHandler_stringOnly (h : ∀ write, srv.write = some write → StringOnly write) :
    StringOnly srv.writeHandler := by
  unfold writeHandler
  cases hw : srv.write with
  | some write => exact h write hw
  | none => exact fun _ _ data inp => .refl data inp

theorem readHandler_appendOnly (h : ∀ read, srv.read = some read → AppendOnly read) :
    AppendOnly srv.readHandler := by
  unfold readHandler
  cases hr : srv.read with
  | some read => exact h read hr
  | none =>
    intro app oid out
    have htwo : out.push [1, 0] = (Oer.putU8 0).void ((Oer.putU8 1).void out) := by
      rw [void_putU8, void_putU8, Stream.push_push]
      rfl
    change Writes out (out.push [1, 0])
    rw [htwo]
    exact .step [1] (.step [0] (.refl _))

/-- A read answers with a response header and what the handler wrote, or with a failure. -/
theorem respondRead_out (h : AppendOnly srv.readHandler) :
    let r := srv.readHandler app oid (out.push [4, inv, 1, 0])
    (r.verdict = true → (respondRead srv loc app inv oid inp out).out = r.out) ∧
    (r.verdict = false → Stream.Alike (respondRead srv loc app inv oid inp out).out
      (out.push (readFailure inv (errorByte loc r.error)))) := by
  intro r
  obtain ⟨bs, hbs, hout⟩ := (h app oid (out.push [4, inv, 1, 0])).append
  rw [← Stream.push_of_le hbs, Stream.push_push] at hout
  rw [respondRead_eq]
  refine ⟨fun hv => by simp only [r, hv, if_true] at *, fun hv => ?_⟩
  simp only [r] at hv
  simp only [hv, Bool.false_eq_true, if_false, hout]
  have hback := (out.push_seekSet [4, inv, 1] (0 :: bs)).push [1, errorByte loc r.error]
  rwa [Stream.push_push] at hback

theorem respondWrite_header :
    ∃ more, Stream.Alike (respondWrite srv loc app inv oid data inp out).out
      (out.push (4 :: inv :: more)) := by
  rw [respondWrite_eq]
  exact ⟨_, .refl _⟩

theorem respondRead_header (h : AppendOnly srv.readHandler) :
    ∃ more, Stream.Alike (respondRead srv loc app inv oid inp out).out
      (out.push (4 :: inv :: more)) := by
  obtain ⟨hok, hfail⟩ := respondRead_out srv loc app inv inp out oid h
  cases hv : (srv.readHandler app oid (out.push [4, inv, 1, 0])).verdict with
  | true =>
    obtain ⟨bs, hbs, hout⟩ := (h app oid (out.push [4, inv, 1, 0])).append
    rw [← Stream.push_of_le hbs, Stream.push_push] at hout
    rw [hok hv, hout]
    exact ⟨_, .refl _⟩
  | false => exact ⟨_, hfail hv⟩

end Respond

/-- Where a write command leaves the input. -/
theorem processBody_write_inp (hwrite : StringOnly srv.writeHandler) {oid : UInt32}
    {hd : Datum UInt32} {tl : List UInt8} (h : Grammar.body inp.rest = .ok (.write oid hd, tl)) :
    ∃ n ≤ tl.length, (processBody srv loc app inv inp out).inp =
      match hd.string? with
      | some size => (((inp.after tl).skip n).seekSet ((inp.after tl).pos + size)).2
      | none => inp.after tl := by
  obtain ⟨hrun, htl⟩ := processBody_write srv loc app inv inp out h
  have hreads := hwrite app oid (placed hd (inp.after tl)) (inp.after tl)
  obtain ⟨n, hn, hs⟩ := hreads.moves.1
  rw [htl] at hn
  refine ⟨n, hn, ?_⟩
  rw [hrun, respondWrite_eq]
  dsimp only
  rw [settle_size, reads_string? hreads]
  cases hsize : hd.string? with
  | some size => rw [hs]
  | none =>
    apply hreads.other
    rw [placed, Datum.string?_map, hsize]
    rfl

/-- An incomplete command adds nothing to the output, a complete one a response header and more. -/
theorem processBody_out (h : AppendOnly srv.readHandler) :
    ∃ bs, Stream.Alike (processBody srv loc app inv inp out).out (out.push bs) ∧
      match Grammar.body inp.rest with
      | .error _ => bs = []
      | .ok _ => ∃ more, bs = 4 :: inv :: more := by
  cases hbody : Grammar.body inp.rest with
  | error e =>
    obtain ⟨n, -, hrun⟩ := processBody_error srv loc app inv inp out hbody
    refine ⟨[], ?_, rfl⟩
    rw [hrun, Stream.push_nil]
    exact .refl _
  | ok r =>
    obtain ⟨⟨oid, data⟩ | oid, tl⟩ := r
    · rw [(processBody_write srv loc app inv inp out hbody).1]
      obtain ⟨more, hmore⟩ := respondWrite_header srv loc app inv (inp.after tl) out oid _
      exact ⟨_, hmore, _, rfl⟩
    · rw [(processBody_read srv loc app inv inp out hbody).1]
      obtain ⟨more, hmore⟩ := respondRead_header srv loc app inv (inp.after tl) out oid h
      exact ⟨_, hmore, _, rfl⟩

/-- A complete write command, up to the payload of a string. -/
theorem process_write {oid : UInt32} {hd : Datum UInt32} {tl payload : List UInt8}
    (h : inp.rest = 3 :: inv :: tl) (hbody : Grammar.body tl = .ok (.write oid hd, payload)) :
    let s := (inp.skip 2).after payload
    process srv loc app inp out =
      rollback inv inp.pos (respondWrite srv loc app inv oid (placed hd s) s out) ∧
    s.rest = payload := by
  obtain ⟨hrun, htl⟩ := process_command srv loc app inv inp out h
  rw [← htl] at hbody
  obtain ⟨hrun', hpayload⟩ := processBody_write srv loc app inv (inp.skip 2) out hbody
  exact ⟨hrun.trans (congrArg _ hrun'), hpayload⟩

theorem process_read {oid : UInt32} {tl rest : List UInt8} (h : inp.rest = 3 :: inv :: tl)
    (hbody : Grammar.body tl = .ok (.read oid, rest)) :
    let s := (inp.skip 2).after rest
    process srv loc app inp out =
      rollback inv inp.pos (respondRead srv loc app inv oid s out) ∧
    s.rest = rest := by
  obtain ⟨hrun, htl⟩ := process_command srv loc app inv inp out h
  rw [← htl] at hbody
  obtain ⟨hrun', hrest⟩ := processBody_read srv loc app inv (inp.skip 2) out hbody
  exact ⟨hrun.trans (congrArg _ hrun'), hrest⟩

/-- With room for two bytes the header of a response is there. -/
theorem header_of_alike {r : Stream} {more : List UInt8}
    (h : Stream.Alike r (out.push (4 :: inv :: more))) (hroom : 2 ≤ out.room) :
    ∃ more, r.content = out.content ++ 4 :: inv :: more := by
  obtain ⟨room, hn⟩ := Nat.exists_eq_add_of_le' hroom
  rw [h.content, Stream.content_push, hn]
  exact ⟨_, rfl⟩

end Server

end Aloof.C
