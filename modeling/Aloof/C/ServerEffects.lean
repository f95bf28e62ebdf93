import Aloof.C.ServerProof

namespace Aloof.C.Server

open Framework

variable {σ : Type} (srv : Server σ) (loc : Locals) (app : σ) (inp out : Stream)

/-- Every object reads as the u8 7 and can be written, but for object 0. One byte of a written
string is looked at. -/
def meterRead : ReadFn Unit := fun _ _ out =>
  let put := Data.put (.u8 7) out
  ⟨put.1, some .application, (), put.2⟩

def meterWrite : WriteFn Unit := fun _ oid data inp =>
  let chunk := Data.getString data inp 1
  ⟨oid != 0, some .access, (), chunk.self, chunk.s⟩

def meter : Server Unit := Server.init (some meterRead) (some meterWrite)

theorem meter_appendOnly {read : ReadFn Unit} (h : meter.read = some read) : AppendOnly read := by
  cases h
  exact fun _ _ out => (Data.put_appends _).writes out

/-- Locals that happen to hold zero bytes. -/
def zeroed : Locals := ⟨0, 0, 0, 0, 0, ⟨.client, 0, 0⟩, .nil, 0⟩

/-- A stream over these bytes, moved to an offset. -/
def streamAt (buf : List UInt8) (h : buf.length < 2^32) (pos : UInt32) : Stream :=
  ((Stream.init buf h).seekSet pos).2

/-- Nothing was added to the output and nothing queued there was taken away. -/
def OutputKept (out out' : Stream) : Prop :=
  out'.pos = out.pos ∧ out'.buf.take out.pos.toNat = out.buf.take out.pos.toNat

instance (out out' : Stream) : Decidable (OutputKept out out') :=
  inferInstanceAs (Decidable (_ ∧ _))

/-- The rollback of an unconfirmed command seeks the output to the offset the input had. -/
theorem process_unconfirmed (hread : ∀ read, srv.read = some read → AppendOnly read)
    {inv : UInt8} {tl : List UInt8} (h : inp.rest = 3 :: inv :: tl)
    (hinv : isConfirmed inv = false) :
    OutputKept out (process srv loc app inp out).out ↔
      inp.pos = out.pos ∨
        (out.max < inp.pos ∧ (out.room = 0 ∨ Grammar.body tl = .error ())) := by
  obtain ⟨hrun, htl⟩ := process_command srv loc app inv inp out h
  obtain ⟨bs, halike, hbs⟩ := processBody_out srv loc app inv (inp.skip 2) out
    (readHandler_appendOnly srv hread)
  have hempty : bs = [] ↔ Grammar.body tl = .error () := by
    rw [htl] at hbs
    cases hbody : Grammar.body tl with
    | error e =>
      rw [hbody] at hbs
      simp [hbs]
    | ok r =>
      rw [hbody] at hbs
      obtain ⟨more, rfl⟩ := hbs
      simp
  have hmax : (processBody srv loc app inv (inp.skip 2) out).out.max = out.max := halike.max
  have hbuf := halike.take_buf
  have hpos := halike.toNat_pos
  rw [Stream.toNat_pos_push] at hpos
  have hle := UInt32.le_iff_toNat_le.mp out.pos_le
  rw [hrun, rollback, hinv, OutputKept, ← UInt32.toNat_inj, ← UInt32.toNat_inj]
  simp only [Bool.false_eq_true, if_false, UInt32.lt_iff_toNat_lt]
  by_cases hseek : inp.pos ≤ out.max
  · have hseek' := UInt32.le_iff_toNat_le.mp hseek
    rw [Stream.seekSet, dif_pos (by rw [hmax]; exact hseek)]
    constructor
    · exact fun hk => Or.inl hk.1
    · rintro (heq | hfar)
      · exact ⟨heq, hbuf⟩
      · omega
  · have hseek' : out.max.toNat < inp.pos.toNat := by
      rw [UInt32.le_iff_toNat_le] at hseek
      omega
    rw [Stream.seekSet, dif_neg (by rw [hmax]; exact hseek)]
    have hnone : out.room = 0 ∨ Grammar.body tl = .error () ↔ min out.room bs.length = 0 := by
      rw [← hempty, ← List.length_eq_zero_iff]
      omega
    rw [hnone]
    dsimp only
    rw [hpos]
    constructor
    · exact fun hk => Or.inr ⟨hseek', by have := hk.1; omega⟩
    · rintro (heq | ⟨-, hzero⟩)
      · omega
      · exact ⟨by omega, hbuf⟩

theorem process_unconfirmed_meter :
    OutputKept (streamAt [0, 0, 0, 0, 9, 0, 0, 0, 0] (by decide) 5)
      (process meter zeroed () (streamAt [0, 0, 0, 0, 0, 3, 0, 1, 5] (by decide) 5)
        (streamAt [0, 0, 0, 0, 9, 0, 0, 0, 0] (by decide) 5)).out :=
  (process_unconfirmed meter zeroed () (streamAt [0, 0, 0, 0, 0, 3, 0, 1, 5] (by decide) 5)
    (streamAt [0, 0, 0, 0, 9, 0, 0, 0, 0] (by decide) 5) (fun _ h => meter_appendOnly h)
    (show _ = 3 :: 0 :: [1, 5] by decide) (by decide)).mpr (Or.inl rfl)

/-- An unconfirmed read takes a byte off the output that was queued there before. -/
theorem process_unconfirmed_drops :
    let out := streamAt [9, 0, 0, 0, 0, 0, 0, 0] (by decide) 1
    let out' := (process meter zeroed () (streamAt [3, 0, 1, 5] (by decide) 0) out).out
    isConfirmed 0 = false ∧ out.pos = 1 ∧ out'.pos = 0 ∧ ¬ OutputKept out out' := by
  decide

/-- The input did not move back, and moved if there was something to take. -/
def Advances (inp inp' : Stream) : Prop :=
  inp.pos ≤ inp'.pos ∧ inp'.pos ≤ inp.max ∧ (inp.rest ≠ [] → inp.pos < inp'.pos)

instance (inp inp' : Stream) : Decidable (Advances inp inp') :=
  inferInstanceAs (Decidable (_ ∧ _ ∧ _))

theorem advances_skip {n : Nat} (hn : n ≤ inp.rest.length) (hpos : inp.rest ≠ [] → 0 < n) :
    Advances inp (inp.skip n) := by
  have hskip := Stream.toNat_pos_skip (Nat.le_trans hn inp.length_rest_le)
  refine ⟨UInt32.le_iff_toNat_le.mpr (by omega), (inp.skip n).pos_le, fun h => ?_⟩
  have := hpos h
  exact UInt32.lt_iff_toNat_lt.mpr (by omega)

/-- The input is at a write command of a string or blob: its announced size and what follows the
announcement. -/
def AtString (size : UInt32) (payload : List UInt8) : Prop :=
  ∃ inv tl oid data, inp.rest = 3 :: inv :: tl ∧
    Grammar.body tl = .ok (.write oid data, payload) ∧ data.string? = some size

theorem atString_unique {size size' : UInt32} {payload payload' : List UInt8}
    (h : AtString inp size payload) (h' : AtString inp size' payload') :
    size = size' ∧ payload = payload' := by
  obtain ⟨inv, tl, oid, data, hrest, hbody, hsize⟩ := h
  obtain ⟨inv', tl', oid', data', hrest', hbody', hsize'⟩ := h'
  cases hrest.symm.trans hrest'
  cases hbody.symm.trans hbody'
  cases hsize.symm.trans hsize'
  exact ⟨rfl, rfl⟩

theorem process_skip (hwrite : StringOnly srv.writeHandler)
    (hstring : ∀ size payload, ¬ AtString inp size payload) :
    ∃ n ≤ inp.rest.length, (inp.rest ≠ [] → 0 < n) ∧
      (process srv loc app inp out).inp = inp.skip n := by
  have further {k : Nat} (hk : k ≤ inp.rest.length) (hpos : 0 < k) {s : Stream}
      (hs : ∃ m ≤ (inp.skip k).rest.length, s = (inp.skip k).skip m) :
      ∃ n ≤ inp.rest.length, (inp.rest ≠ [] → 0 < n) ∧ s = inp.skip n := by
    obtain ⟨m, hm, rfl⟩ := hs
    rw [Stream.rest_skip hk, List.length_drop] at hm
    exact ⟨k + m, by omega, fun _ => by omega, Stream.skip_skip (by omega)⟩
  have stay : ∃ m ≤ (inp.skip 1).rest.length, inp.skip 1 = (inp.skip 1).skip m :=
    ⟨0, Nat.zero_le _, by simp⟩
  obtain ⟨bs, hrest⟩ : ∃ bs, inp.rest = bs := ⟨_, rfl⟩
  cases front bs with
  | nil =>
    rw [process_nil srv loc app inp out hrest]
    exact ⟨0, by simp, fun h => absurd hrest h, by simp⟩
  | hello tl =>
    rw [process_hello srv loc app inp out hrest, processHello_inp]
    obtain ⟨m, hm, hs, -⟩ := getHello_implements loc.scratch (inp.skip 1)
    exact further (by simp [hrest]) Nat.one_pos ⟨m, hm, hs⟩
  | truncated =>
    rw [process_truncated srv loc app inp out hrest, rollback_inp]
    exact further (by simp [hrest]) Nat.one_pos stay
  | command inv tl =>
    obtain ⟨hrun, htl⟩ := process_command srv loc app inv inp out hrest
    rw [hrun, rollback_inp]
    apply further (k := 2) (by simp [hrest]) Nat.two_pos
    cases hbody : Grammar.body tl with
    | error e =>
      rw [← htl] at hbody
      obtain ⟨m, hm, hb⟩ := processBody_error srv loc app inv (inp.skip 2) out hbody
      exact ⟨m, hm, by rw [hb]⟩
    | ok r =>
      obtain ⟨⟨oid, data⟩ | oid, payload⟩ := r
      · have hnone : data.string? = none := by
          cases hsize : data.string? with
          | none => rfl
          | some size =>
            exact absurd ⟨inv, tl, oid, data, hrest, hbody, hsize⟩ (hstring size payload)
        rw [← htl] at hbody
        obtain ⟨n, -, hs⟩ := processBody_write_inp srv loc app inv (inp.skip 2) out hwrite hbody
        rw [hnone] at hs
        exact ⟨_, Nat.sub_le _ _, hs⟩
      · rw [← htl] at hbody
        rw [(processBody_read srv loc app inv (inp.skip 2) out hbody).1, respondRead_eq]
        exact ⟨_, Nat.sub_le _ _, rfl⟩
  | other b tl h0 h3 =>
    rw [process_other srv loc app inp out hrest h0 h3]
    exact further (by simp [hrest]) Nat.one_pos stay

/-- Where the header of a command ends. -/
def headerEnd (payload : List UInt8) : Nat :=
  inp.pos.toNat + (inp.rest.length - payload.length)

theorem process_string (hwrite : StringOnly srv.writeHandler) {size : UInt32}
    {payload : List UInt8} (h : AtString inp size payload) :
    inp.pos.toNat < headerEnd inp payload ∧
    ∃ n, headerEnd inp payload + n ≤ inp.max.toNat ∧
      (process srv loc app inp out).inp.pos.toNat =
      if (headerEnd inp payload + size.toNat) % 2^32 ≤ inp.max.toNat
      then (headerEnd inp payload + size.toNat) % 2^32
      else headerEnd inp payload + n := by
  obtain ⟨inv, tl, oid, data, hrest, hbody, hsize⟩ := h
  obtain ⟨hrun, htl⟩ := process_command srv loc app inv inp out hrest
  have htwo : 2 ≤ inp.rest.length := by simp [hrest]
  have hroom := inp.length_rest_le
  have hmax := inp.size_eq
  rw [← htl] at hbody
  have hpayload := (processBody_write srv loc app inv (inp.skip 2) out hbody).2
  have hle := Stream.length_le_of_after hpayload
  have hend := (inp.skip 2).toNat_pos_after payload
  rw [Stream.toNat_pos_skip (by omega), Stream.rest_skip htwo, List.length_drop] at hend
  rw [Stream.rest_skip htwo, List.length_drop] at hle
  have hhead : ((inp.skip 2).after payload).pos.toNat = headerEnd inp payload := by
    unfold headerEnd
    omega
  unfold headerEnd at hhead ⊢
  obtain ⟨n, hn, hs⟩ := processBody_write_inp srv loc app inv (inp.skip 2) out hwrite hbody
  rw [hsize] at hs
  dsimp only at hs
  rw [hrun, rollback_inp, hs]
  have hrestlen := ((inp.skip 2).after payload).length_rest_le
  have hbuf : ((inp.skip 2).after payload).buf.length = inp.buf.length := rfl
  rw [hpayload] at hrestlen
  refine ⟨by omega, n, by omega, ?_⟩
  have hsum : (((inp.skip 2).after payload).pos + size).toNat =
      (((inp.skip 2).after payload).pos.toNat + size.toNat) % 2^32 := UInt32.toNat_add _ _
  have hskip := Stream.toNat_pos_skip (Nat.le_trans hn hrestlen)
  rw [Stream.toNat_pos_seekSet, ← hhead, ← hsum, ← hskip]
  rfl

/-- The end of a string is computed in 32 bits: a large announced size can wrap it back to where
the command began, or further. -/
theorem process_advances (hwrite : ∀ write, srv.write = some write → StringOnly write) :
    Advances inp (process srv loc app inp out).inp ↔
      ∀ size payload, AtString inp size payload →
        headerEnd inp payload + size.toNat < 2^32 ∨
        inp.pos.toNat + 2^32 < headerEnd inp payload + size.toNat := by
  have hhandler := writeHandler_stringOnly srv hwrite
  by_cases hstring : ∃ size payload, AtString inp size payload
  · obtain ⟨size, payload, hat⟩ := hstring
    obtain ⟨hpast, n, hmax, hpos⟩ := process_string srv loc app inp out hhandler hat
    have hsize := size.toNat_lt
    have hlt := inp.max.toNat_lt
    have hrest : inp.rest ≠ [] := by
      obtain ⟨inv, tl, oid, data, hrest, -⟩ := hat
      simp [hrest]
    have honly : (∀ size' payload', AtString inp size' payload' →
        headerEnd inp payload' + size'.toNat < 2^32 ∨
        inp.pos.toNat + 2^32 < headerEnd inp payload' + size'.toNat) ↔
        headerEnd inp payload + size.toNat < 2^32 ∨
        inp.pos.toNat + 2^32 < headerEnd inp payload + size.toNat := by
      refine ⟨fun h => h size payload hat, fun h size' payload' hat' => ?_⟩
      obtain ⟨rfl, rfl⟩ := atString_unique inp hat hat'
      exact h
    rw [honly, Advances, UInt32.le_iff_toNat_le, UInt32.le_iff_toNat_le, UInt32.lt_iff_toNat_lt,
      hpos]
    -- Below 2^32 there is no remainder to take; from there on the sum wraps exactly once.
    rcases Nat.lt_or_ge (headerEnd inp payload + size.toNat) (2^32) with hsum | hsum
    · rw [Nat.mod_eq_of_lt hsum]
      split_ifs <;> exact iff_of_true ⟨by omega, by omega, fun _ => by omega⟩ (Or.inl hsum)
    · have hwrap : (headerEnd inp payload + size.toNat) % 2^32 =
          headerEnd inp payload + size.toNat - 2^32 := by omega
      rw [hwrap, if_pos (by omega)]
      constructor
      · intro h
        have := h.2.2 hrest
        omega
      · intro h
        exact ⟨by omega, by omega, fun _ => by omega⟩
  · have hnone : ∀ size payload, ¬ AtString inp size payload :=
      fun size payload hat => hstring ⟨size, payload, hat⟩
    obtain ⟨n, hn, hpos, hs⟩ := process_skip srv loc app inp out hhandler hnone
    rw [hs]
    exact iff_of_true (advances_skip inp hn hpos) fun size payload hat => (hnone _ _ hat).elim

theorem meter_stringOnly {write : WriteFn Unit} (h : meter.write = some write) :
    StringOnly write := by
  cases h
  exact fun _ _ _ _ => .step 1 (.refl _ _)

theorem process_advances_meter :
    Advances (streamAt [3, 0x80, 0, 5, 12, 2, 65, 66] (by decide) 0)
      (process meter zeroed () (streamAt [3, 0x80, 0, 5, 12, 2, 65, 66] (by decide) 0)
        (streamAt [0, 0, 0, 0, 0, 0, 0, 0] (by decide) 0)).inp := by
  apply (process_advances meter zeroed () _ _ fun _ h => meter_stringOnly h).mpr
  intro size payload hat
  have hat' : AtString (streamAt [3, 0x80, 0, 5, 12, 2, 65, 66] (by decide) 0) 2 [65, 66] :=
    ⟨0x80, [0, 5, 12, 2, 65, 66], 5, .string 2, by decide, rfl, rfl⟩
  obtain ⟨rfl, rfl⟩ := atString_unique _ hat hat'
  exact Or.inl (by decide)

/-- A string of 2^32 - 12 bytes announced at offset 12 moves the input from 2 to 0. -/
theorem process_rewinds :
    let inp := streamAt [9, 9, 3, 0x80, 0, 5, 12, 0x84, 0xff, 0xff, 0xff, 0xf4] (by decide) 2
    let out := streamAt [0, 0, 0, 0, 0, 0, 0, 0] (by decide) 0
    let inp' := (process meter zeroed () inp out).inp
    inp.pos = 2 ∧ inp.rest ≠ [] ∧ inp'.pos = 0 ∧ ¬ Advances inp inp' := by
  decide

/-- What a caller of aloof_server_process can see of a run. -/
structure SameRun (r r' : Outcome σ) : Prop where
  calls : r.calls = r'.calls
  inp : r.inp.pos = r'.inp.pos
  pos : r.out.pos = r'.out.pos
  buf : r.out.buf = r'.out.buf

theorem getHello_scratch (a b : UInt8) : getHello a = getHello b := by
  simp only [getHello, Data.getUint_scratch a b]

theorem parseBody_scratch (a b : UInt8) : parseBody a = parseBody b := by
  simp only [parseBody, Data.getUint_scratch a b, Data.get_scratch a b]

theorem processHello_locals (loc' : Locals) :
    processHello srv loc app inp out = processHello srv loc' app inp out := by
  simp only [processHello, getHello_scratch loc.scratch loc'.scratch]

theorem processBody_locals (inv : UInt8) {loc' : Locals} (h : loc'.accessError = loc.accessError) :
    processBody srv loc app inv inp out = processBody srv loc' app inv inp out := by
  have herr (error : Option AccessError) : errorByte loc' error = errorByte loc error := by
    rw [errorByte, errorByte, h]
  simp only [processBody_eq, parseBody_scratch loc.scratch loc'.scratch, respondWrite_eq,
    respondRead_eq, writeReply, herr]

/-- A stored invoke field, or nothing stored and nothing looked at. -/
theorem process_locals_congr {loc' : Locals} (h : loc'.accessError = loc.accessError)
    (hrest : inp.rest ≠ [3]) :
    process srv loc app inp out = process srv loc' app inp out := by
  obtain ⟨bs, hfront⟩ : ∃ bs, inp.rest = bs := ⟨_, rfl⟩
  cases front bs with
  | nil => rw [process_nil srv loc app inp out hfront, process_nil srv loc' app inp out hfront]
  | hello tl =>
    rw [process_hello srv loc app inp out hfront, process_hello srv loc' app inp out hfront]
    exact processHello_locals srv loc app _ out loc'
  | truncated => exact absurd hfront hrest
  | command inv tl =>
    rw [(process_command srv loc app inv inp out hfront).1,
      (process_command srv loc' app inv inp out hfront).1,
      processBody_locals srv loc app _ out inv h]
  | other b tl h0 h3 =>
    rw [process_other srv loc app inp out hfront h0 h3,
      process_other srv loc' app inp out hfront h0 h3]

/-- The one local that is looked at unset is the invoke field, of a command that ends before it;
what shows is a seek that moves the output. -/
theorem process_locals :
    (∀ loc loc' : Locals, loc'.accessError = loc.accessError →
      SameRun (process srv loc app inp out) (process srv loc' app inp out)) ↔
    ¬ (inp.rest = [3] ∧ inp.pos ≠ out.pos ∧ inp.pos ≤ out.max) := by
  constructor
  · rintro hsame ⟨hrest, hne, hle⟩
    have hpos := (hsame zeroed { zeroed with invokeField := 0x80 } rfl).pos
    rw [process_truncated srv _ app inp out hrest, process_truncated srv _ app inp out hrest]
      at hpos
    have hback : (out.seekSet inp.pos).2.pos = out.pos := hpos
    rw [Stream.seekSet, dif_pos hle] at hback
    exact hne hback
  · intro hcond loc loc' h
    by_cases hrest : inp.rest = [3]
    · have hkept : (out.seekSet inp.pos).2 = out := by
        by_cases hpos : inp.pos = out.pos
        · rw [hpos, Stream.seekSet_pos]
        · rw [Stream.seekSet, dif_neg fun hle => hcond ⟨hrest, hpos, hle⟩]
      have hrun (loc : Locals) : process srv loc app inp out = ⟨app, inp.skip 1, out, []⟩ := by
        rw [process_truncated srv loc app inp out hrest]
        simp only [rollback, hkept, ite_self]
      rw [hrun loc, hrun loc']
      exact ⟨rfl, rfl, rfl, rfl⟩
    · rw [process_locals_congr srv loc app inp out h hrest]
      exact ⟨rfl, rfl, rfl, rfl⟩

/-- A lone tag byte: with a byte queued in the output, the garbage in invoke_field decides whether
it stays. -/
theorem process_locals_leak :
    let inp := streamAt [3] (by decide) 0
    let out := streamAt [9, 0, 0, 0] (by decide) 1
    ¬ SameRun (process meter { zeroed with invokeField := 0x80 } () inp out)
      (process meter { zeroed with invokeField := 0 } () inp out) := by
  intro inp out h
  have hkept : (process meter { zeroed with invokeField := 0x80 } () inp out).out.pos = 1 := by
    decide
  have hsought : (process meter { zeroed with invokeField := 0 } () inp out).out.pos = 0 := by
    decide
  exact absurd (hkept.symm.trans (h.pos.trans hsought)) (by decide)

end Aloof.C.Server
