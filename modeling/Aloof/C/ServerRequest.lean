import Aloof.C.ServerEffects

namespace Aloof.C

open Framework

/-- What the server understands of a message. The payload is what follows the parsed part. -/
inductive Request where
  | hello
  | command (inv : UInt8) (body : Body UInt32) (payload : List UInt8)

def Grammar.command (inv : UInt8) (tl : List UInt8) : Option Request :=
  (body tl).toOption.map fun r => .command inv r.1 r.2

def Grammar.request (bs : List UInt8) : Option Request :=
  if bs.head? = some 0 then (hello bs.tail).toOption.map fun _ => .hello
  else if bs.head? = some 3 then bs.tail.head?.bind fun inv => command inv bs.tail.tail
  else none

theorem Grammar.request_hello (tl : List UInt8) :
    request (0 :: tl) = (hello tl).toOption.map fun _ => .hello := rfl

theorem Grammar.request_command (inv : UInt8) (tl : List UInt8) :
    request (3 :: inv :: tl) = command inv tl := rfl

theorem Grammar.request_other {b : UInt8} (h0 : b ≠ 0) (h3 : b ≠ 3) (tl : List UInt8) :
    request (b :: tl) = none := by
  simp [request, h0, h3]

/-- A command that is understood has an invoke field and a body. -/
theorem Grammar.request_eq_command {bs : List UInt8} {inv : UInt8} {b : Body UInt32}
    {payload : List UInt8} (h : request bs = some (.command inv b payload)) :
    ∃ tl, bs = 3 :: inv :: tl ∧ body tl = .ok (b, payload) := by
  cases Server.front bs with
  | nil => cases h
  | hello tl =>
    rw [request_hello] at h
    cases hhello : hello tl with
    | ok r => rw [hhello] at h; cases h
    | error e => rw [hhello] at h; cases h
  | truncated => cases h
  | command inv' tl =>
    rw [request_command, command] at h
    cases hbody : body tl with
    | ok r =>
      rw [hbody] at h
      cases h
      exact ⟨tl, rfl, hbody⟩
    | error e => rw [hbody] at h; cases h
  | other b' tl h0 h3 =>
    rw [request_other h0 h3] at h
    cases h

theorem Grammar.request_eq_hello {bs : List UInt8} (h : request bs = some .hello) :
    ∃ tl r, bs = 0 :: tl ∧ hello tl = .ok r := by
  cases Server.front bs with
  | nil => cases h
  | hello tl =>
    rw [request_hello] at h
    cases hhello : hello tl with
    | ok r => exact ⟨tl, r, rfl, hhello⟩
    | error e => rw [hhello] at h; cases h
  | truncated => cases h
  | command inv tl =>
    rw [request_command, command] at h
    cases hbody : body tl with
    | ok r => rw [hbody] at h; cases h
    | error e => rw [hbody] at h; cases h
  | other b tl h0 h3 =>
    rw [request_other h0 h3] at h
    cases h

namespace Server

variable {σ : Type} (srv : Server σ) (loc : Locals) (app : σ) (inp out : Stream)

/-- HELLO HELLO from a server, with the version and the features of aloof_server_init. -/
def helloReply : List UInt8 := [1, 1, 0, 0, 0, 0, 0]

theorem content_eq_nil {s : Stream} (h : s.pos = 0) : s.content = [] := by
  rw [Stream.content, h]
  rfl

theorem content_rollback {inv : UInt8} (h : isConfirmed inv = false) (r : Outcome σ) :
    (rollback inv 0 r).out.content = [] := by
  rw [rollback, h]
  apply content_eq_nil
  change (r.out.seekSet 0).2.pos = 0
  rw [Stream.seekSet, dif_pos UInt32.zero_le]

@[simp] theorem rollback_app (inv : UInt8) (startOffset : UInt32) (r : Outcome σ) :
    (rollback inv startOffset r).app = r.app := by
  unfold rollback
  split_ifs <;> rfl

/-- Without a request nothing happens. -/
theorem process_silent (hinp : inp.pos = 0) (hout : out.pos = 0)
    (h : Grammar.request inp.rest = none) :
    (process srv loc app inp out).app = app ∧ (process srv loc app inp out).calls = [] ∧
    (process srv loc app inp out).out.content = [] := by
  have hnone := content_eq_nil hout
  have hkept (inv : UInt8) (s : Stream) :
      (rollback inv inp.pos ⟨app, s, out, []⟩ : Outcome σ).out.content = [] := by
    cases hinv : isConfirmed inv with
    | true => rw [rollback_confirmed hinv]; exact hnone
    | false => rw [hinp]; exact content_rollback hinv _
  obtain ⟨bs, hrest⟩ : ∃ bs, inp.rest = bs := ⟨_, rfl⟩
  rw [hrest] at h
  cases front bs with
  | nil =>
    rw [process_nil srv loc app inp out hrest]
    exact ⟨rfl, rfl, hnone⟩
  | hello tl =>
    have htl : (inp.skip 1).rest = tl := by
      rw [Stream.rest_skip (by simp [hrest]), hrest]
      rfl
    rw [Grammar.request_hello] at h
    cases hhello : Grammar.hello tl with
    | ok r => rw [hhello] at h; cases h
    | error e =>
      rw [← htl] at hhello
      obtain ⟨n, -, hrun⟩ := (getHello_implements loc.scratch _).error hhello
      rw [process_hello srv loc app inp out hrest, processHello, hrun]
      exact ⟨rfl, rfl, hnone⟩
  | truncated =>
    rw [process_truncated srv loc app inp out hrest]
    exact ⟨rollback_app _ _ _, rollback_calls _ _ _, hkept _ _⟩
  | command inv tl =>
    rw [Grammar.request_command, Grammar.command] at h
    obtain ⟨hrun, htl⟩ := process_command srv loc app inv inp out hrest
    cases hbody : Grammar.body tl with
    | ok r => rw [hbody] at h; cases h
    | error e =>
      rw [← htl] at hbody
      obtain ⟨n, -, hb⟩ := processBody_error srv loc app inv (inp.skip 2) out hbody
      rw [hrun, hb]
      exact ⟨rollback_app _ _ _, rollback_calls _ _ _, hkept _ _⟩
  | other b tl h0 h3 =>
    rw [process_other srv loc app inp out hrest h0 h3]
    exact ⟨rfl, rfl, hnone⟩

theorem process_greets (hversion : srv.version = 0) (hfeatures : srv.features = 0)
    (hout : out.pos = 0) (hroom : helloReply.length ≤ out.room)
    (h : Grammar.request inp.rest = some .hello) :
    (process srv loc app inp out).app = app ∧ (process srv loc app inp out).calls = [] ∧
    (process srv loc app inp out).out.content = helloReply := by
  obtain ⟨tl, r, hrest, hhello⟩ := Grammar.request_eq_hello h
  have htl : (inp.skip 1).rest = tl := by
    rw [Stream.rest_skip (by simp [hrest]), hrest]
    rfl
  rw [← htl] at hhello
  obtain ⟨hrun, -⟩ := (getHello_implements loc.scratch _).after hhello
  have hwritten : (Oer.putU32 0).void ((Oer.putUint 0).void (out.push [1, 1])) =
      out.append helloReply := by
    have hzero : (Oer.putUint 0).Appends [0] := Oer.putUint_appends 0
    have hfour : (Oer.putU32 0).Appends [0, 0, 0, 0] := Oer.putU32_appends 0
    have hfit : (out.push [1, 1, 0]).Fits 4 := by
      rw [Stream.fits_iff_le_room (by decide), Stream.room_push]
      exact Nat.le_sub_of_add_le' hroom
    rw [hzero.void_singleton, Stream.push_push]
    change (Oer.putU32 0 (out.push [1, 1, 0])).2 = _
    have hle : [0, 0, 0, 0].length ≤ (out.push [1, 1, 0]).room := hfit.2
    rw [hfour.ok hfit, ← Stream.push_of_le hle, Stream.push_push, ← Stream.push_of_le hroom]
    rfl
  rw [process_hello srv loc app inp out hrest, processHello, hrun, hversion, hfeatures]
  refine ⟨rfl, rfl, ?_⟩
  simp only [Option.isSome_some, if_true, void_putU8, Stream.push_push]
  change ((Oer.putU32 0).void ((Oer.putUint 0).void (out.push [1, 1]))).content = _
  rw [hwritten, Stream.content_append hroom, content_eq_nil hout]
  rfl

end Server

end Aloof.C
