import Aloof.C.ServerRuns

namespace Aloof.C.Server

open Framework

variable {σ : Type} (srv : Server σ) (loc : Locals) (app : σ) (inp out : Stream)

/-- The bytes begin with a write command, and behind it lies all that its value announces. -/
def HoldsWrite (oid : UInt32) (data : Datum UInt32) (bs : List UInt8) : Prop :=
  ∃ inv tl payload, bs = 3 :: inv :: tl ∧ Grammar.body tl = .ok (.write oid data, payload) ∧
    (Body.write oid data).announced ≤ payload.length

/-- A write command from its tag to its last payload byte. -/
def IsWrite (bs : List UInt8) : Prop :=
  ∃ inv tl oid data payload, bs = 3 :: inv :: tl ∧
    Grammar.body tl = .ok (.write oid data, payload) ∧
    payload.length = (Body.write oid data).announced

/-- The input ends inside a write command. -/
def TruncatedWrite (bs : List UInt8) : Prop :=
  ∃ whole, IsWrite whole ∧ bs <+: whole ∧ bs ≠ whole

/-- The write handler is called for whole commands only, and a truncated one has no effect. -/
structure CallsWhole (r : Outcome σ) : Prop where
  called : ∀ oid data s, Call.write oid data s ∈ r.calls →
    HoldsWrite oid (data.map StringRx.size) inp.rest
  truncated : TruncatedWrite inp.rest → r.calls = [] ∧ r.out.buf = out.buf

theorem rollback_buf (inv : UInt8) (startOffset : UInt32) (r : Outcome σ) :
    (rollback inv startOffset r).out.buf = r.out.buf := by
  unfold rollback
  split_ifs
  · rfl
  · exact Stream.buf_seekSet _ _

/-- The input at a call of the write handler, and what the handler is given. -/
theorem write_called {oid : UInt32} {data : DataRx} {s : Stream}
    (h : Call.write oid data s ∈ (process srv loc app inp out).calls) :
    ∃ inv tl payload, inp.rest = 3 :: inv :: tl ∧
      Grammar.body tl = .ok (.write oid (data.map StringRx.size), payload) := by
  obtain ⟨bs, hrest⟩ : ∃ bs, inp.rest = bs := ⟨_, rfl⟩
  cases front bs with
  | nil =>
    rw [process_nil srv loc app inp out hrest] at h
    cases h
  | hello tl =>
    rw [process_hello srv loc app inp out hrest, processHello_calls] at h
    cases h
  | truncated =>
    rw [process_truncated srv loc app inp out hrest, rollback_calls] at h
    cases h
  | command inv tl =>
    obtain ⟨hrun, htl⟩ := process_command srv loc app inv inp out hrest
    rw [hrun, rollback_calls] at h
    rcases hbody : Grammar.body tl with e | ⟨⟨oid', data'⟩ | oid', payload⟩
    · rw [← htl] at hbody
      obtain ⟨n, -, hb⟩ := processBody_error srv loc app inv (inp.skip 2) out hbody
      rw [hb] at h
      cases h
    · rw [← htl] at hbody
      rw [(processBody_write srv loc app inv (inp.skip 2) out hbody).1, respondWrite_eq] at h
      dsimp only at h
      split_ifs at h
      · cases List.mem_singleton.mp h
        rw [placed_size]
        exact ⟨inv, tl, payload, hrest, htl ▸ hbody⟩
      · cases h
    · rw [← htl] at hbody
      rw [(processBody_read srv loc app inv (inp.skip 2) out hbody).1, respondRead_eq] at h
      dsimp only at h
      split_ifs at h
      · cases List.mem_singleton.mp h
      · cases h
  | other b tl h0 h3 =>
    rw [process_other srv loc app inp out hrest h0 h3] at h
    cases h

/-- Short of the payload, a truncated command is one that the grammar rejects. -/
theorem process_cut (hpayload : ∀ size payload, AtString inp size payload →
    size.toNat ≤ payload.length) (h : TruncatedWrite inp.rest) :
    (process srv loc app inp out).calls = [] ∧
    (process srv loc app inp out).out.buf = out.buf := by
  obtain ⟨_, ⟨inv, tl', oid, data, payload, rfl, hbody, hwhole⟩, hprefix, hne⟩ := h
  rcases hrest : inp.rest with _ | ⟨b, tl⟩
  · rw [process_nil srv loc app inp out hrest]
    exact ⟨rfl, rfl⟩
  rw [hrest] at hprefix hne
  obtain rfl := (List.cons_prefix_cons.mp hprefix).1
  rcases tl with _ | ⟨b, tl⟩
  · rw [process_truncated srv loc app inp out hrest, rollback_calls, rollback_buf]
    exact ⟨rfl, rfl⟩
  obtain ⟨rfl, more, rfl⟩ := List.cons_prefix_cons.mp (List.cons_prefix_cons.mp hprefix).2
  have hmore : 0 < more.length := by
    apply List.length_pos_iff.mpr
    intro heq
    subst heq
    exact hne (by rw [List.append_nil])
  obtain ⟨hrun, htl⟩ := process_command srv loc app b inp out hrest
  have hreject : Grammar.body tl = .error () := by
    rcases hb : Grammar.body tl with e | ⟨body, payload'⟩
    · rfl
    cases (Grammar.body_stable tl body payload' hb more).symm.trans hbody
    rw [List.length_append] at hwhole
    rw [Body.announced] at hwhole
    cases hsize : data.string? with
    | none =>
      rw [hsize] at hwhole
      exact absurd hwhole (by change ¬ _ = 0; omega)
    | some size =>
      rw [hsize] at hwhole
      have := hpayload size payload' ⟨b, tl, oid, data, hrest, hb, hsize⟩
      change _ = size.toNat at hwhole
      omega
  rw [← htl] at hreject
  obtain ⟨n, -, hb⟩ := processBody_error srv loc app b (inp.skip 2) out hreject
  rw [hrun, rollback_calls, rollback_buf, hb]
  exact ⟨rfl, rfl⟩

/-- The payload of a string is announced, and nothing looks whether it is there. -/
theorem calls_whole :
    (∀ {σ : Type} (srv : Server σ) (loc : Locals) (app : σ) (out : Stream),
      CallsWhole inp out (process srv loc app inp out)) ↔
    ∀ size payload, AtString inp size payload → size.toNat ≤ payload.length := by
  constructor
  · intro h size payload ⟨inv, tl, oid, data, hrest, hbody, hsize⟩
    have hcall : Call.write oid (placed data ((inp.skip 2).after payload))
        ((inp.skip 2).after payload) ∈ (process meter zeroed () inp inp).calls := by
      rw [(process_write meter zeroed () inv inp inp hrest hbody).1, rollback_calls,
        respondWrite_eq]
      exact List.mem_singleton.mpr rfl
    obtain ⟨inv', tl', payload', hrest', hbody', hholds⟩ :=
      (h meter zeroed () inp).called _ _ _ hcall
    cases hrest.symm.trans hrest'
    cases (placed_size data ((inp.skip 2).after payload) ▸ hbody').symm.trans hbody
    rw [placed_size, Body.announced, hsize] at hholds
    exact hholds
  · intro hpayload σ srv loc app out
    constructor
    · intro oid data s hcall
      obtain ⟨inv, tl, payload, hrest, hbody⟩ := write_called srv loc app inp out hcall
      refine ⟨inv, tl, payload, hrest, hbody, ?_⟩
      rw [Body.announced]
      cases hsize : (data.map StringRx.size).string? with
      | none => exact Nat.zero_le _
      | some size => exact hpayload size payload ⟨inv, tl, oid, _, hrest, hbody, hsize⟩
    · exact process_cut srv loc app inp out hpayload

/-- A string of three bytes of which one is there: the handler is called for it, and a response
is written. -/
theorem calls_whole_truncated :
    let inp := streamAt [3, 0x80, 0, 5, 12, 3, 65] (by decide) 0
    let out := streamAt [0, 0, 0, 0, 0, 0, 0, 0] (by decide) 0
    let r := process meter zeroed () inp out
    TruncatedWrite inp.rest ∧ r.calls.length = 1 ∧ r.out.buf = [4, 0x80, 0, 0, 0, 0, 0, 0] ∧
    ¬ CallsWhole inp out r := by
  intro inp out r
  have hcut : TruncatedWrite inp.rest := by
    refine ⟨[3, 0x80, 0, 5, 12, 3, 65, 66, 67], ?_, ⟨[66, 67], by decide⟩, by decide⟩
    exact ⟨0x80, [0, 5, 12, 3, 65, 66, 67], 5, .string 3, [65, 66, 67], rfl, rfl, rfl⟩
  have hwritten : r.out.buf = [4, 0x80, 0, 0, 0, 0, 0, 0] := by decide
  refine ⟨hcut, by decide, hwritten, fun h => ?_⟩
  exact absurd (hwritten.symm.trans (h.truncated hcut).2) (by decide)

end Aloof.C.Server
