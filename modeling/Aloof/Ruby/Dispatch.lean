import Aloof.Ruby.MessageProof

namespace Aloof.Ruby

open Framework

def Message.cls : Message → Base.MessageClass
  | response _ => .response
  | alert _ => .alert

namespace Base

/-- The first uint selects this class. -/
def Selects (s : List UInt8) (cls : MessageClass) (rest : List UInt8) : Prop :=
  ∃ tag, InputCodec.getUint s = .ok (tag, rest) ∧ messages[tag]? = some cls

/-- The second list is what follows one Error tag or more at the front of the first. -/
inductive AfterErrors : List UInt8 → List UInt8 → Prop
  | one {s t : List UInt8} (tag : Selects s .error t) : AfterErrors s t
  | more {s t u : List UInt8} (tag : Selects s .error t) (tags : AfterErrors t u) : AfterErrors s u

/-- A complete message of a class that has a decoder of its own. -/
inductive Whole : List UInt8 → Message → Prop
  | response {s rest r : List UInt8} {msg : Ruby.Response} (tag : Selects s .response rest)
      (body : Response.decode rest = .ok (some (.response msg), r)) : Whole s (.response msg)
  | alert {s rest r : List UInt8} {msg : Ruby.Alert} (tag : Selects s .alert rest)
      (body : Alert.decode rest = .ok (some (.alert msg), r)) : Whole s (.alert msg)

/-- A complete message behind Error tags. -/
def Wrapped (s : List UInt8) : Prop := ∃ t msg, AfterErrors s t ∧ Whole t msg

theorem Selects.unique {s rest rest' : List UInt8} {cls cls' : MessageClass}
    (h : Selects s cls rest) (h' : Selects s cls' rest') : cls = cls' := by
  obtain ⟨tag, hget, hcls⟩ := h
  obtain ⟨tag', hget', hcls'⟩ := h'
  rw [hget] at hget'
  cases hget'
  rw [hcls] at hcls'
  exact Option.some.inj hcls'

theorem Whole.selects {s : List UInt8} {msg : Message} (h : Whole s msg) :
    ∃ rest, Selects s msg.cls rest := by
  cases h with
  | response tag _ => exact ⟨_, tag⟩
  | alert tag _ => exact ⟨_, tag⟩

theorem AfterErrors.selects {s t : List UInt8} (h : AfterErrors s t) :
    ∃ rest, Selects s .error rest := by
  cases h with
  | one tag => exact ⟨_, tag⟩
  | more tag _ => exact ⟨_, tag⟩

theorem decode_error_tag {s t : List UInt8} (h : Selects s .error t) : decode s = decode t := by
  obtain ⟨tag, hget, hcls⟩ := h
  rw [decode_of_getUint hget, hcls]

theorem AfterErrors.decode {s t : List UInt8} (h : AfterErrors s t) :
    decode s = Base.decode t := by
  induction h with
  | one tag => exact decode_error_tag tag
  | more tag _ ih => exact (decode_error_tag tag).trans ih

theorem Whole.decode {s : List UInt8} {msg : Message} (h : Whole s msg) :
    ∃ r, decode s = .ok (some msg, r) := by
  cases h with
  | response tag body =>
    obtain ⟨n, hget, hcls⟩ := tag
    rw [decode_of_getUint hget, hcls]
    exact ⟨_, body⟩
  | alert tag body =>
    obtain ⟨n, hget, hcls⟩ := tag
    rw [decode_of_getUint hget, hcls]
    exact ⟨_, body⟩

end Base

theorem Response.decode_ok {s r : List UInt8} {m : Option Message}
    (h : Response.decode s = .ok (m, r)) : ∃ msg, m = some (.response msg) := by
  obtain ⟨invokeField, _, -, hrun⟩ := Decoder.bind_eq_ok h
  obtain ⟨cls, _, -, hrun⟩ := Decoder.bind_eq_ok hrun
  obtain ⟨type, _, -, hrun⟩ := Decoder.bind_eq_ok hrun
  cases hrun
  exact ⟨_, rfl⟩

theorem Alert.decode_ok {s r : List UInt8} {m : Option Message}
    (h : Alert.decode s = .ok (m, r)) : ∃ msg, m = some (.alert msg) := by
  obtain ⟨aid, _, -, hrun⟩ := Decoder.bind_eq_ok h
  obtain ⟨value, _, -, hrun⟩ := Decoder.bind_eq_ok hrun
  cases hrun
  exact ⟨_, rfl⟩

/-- A command is never decoded. -/
theorem Command.decode_ne_ok {s r : List UInt8} {m : Option Message} :
    Command.decode s ≠ .ok (m, r) := by
  intro h
  obtain ⟨invokeField, _, -, hrun⟩ := Decoder.bind_eq_ok h
  obtain ⟨cls, _, -, hrun⟩ := Decoder.bind_eq_ok hrun
  split_ifs at hrun
  · cases hrun
  · cases hrun

namespace Base

theorem decode_of_error {s : List UInt8} {e : Error} (h : InputCodec.getUint s = .error e) :
    decode s = .error e := by
  rw [decode]
  split
  next hget =>
    rw [h] at hget
    cases hget
    rfl
  next hget =>
    rw [h] at hget
    cases hget

/-- The induction is on what is left behind the tags. -/
theorem decode_some {s r : List UInt8} {msg : Message} (h : decode s = .ok (some msg, r)) :
    Whole s msg ∨ ∃ t, AfterErrors s t ∧ Whole t msg := by
  induction s using Base.decode.induct with
  | case1 s e hget =>
    rw [decode_of_error hget] at h
    cases h
  | case2 s tag rest hget _ hcls =>
    rw [decode_of_getUint hget, hcls] at h
    cases h
  | case3 s tag rest hget _ hcls =>
    rw [decode_of_getUint hget, hcls] at h
    cases h
  | case4 s tag rest hget _ hcls =>
    rw [decode_of_getUint hget, hcls] at h
    cases h
  | case5 s tag rest hget _ hcls ih =>
    have htag : Selects s .error rest := ⟨tag, hget, hcls⟩
    rw [decode_error_tag htag] at h
    rcases ih h with hwhole | ⟨t, htags, hwhole⟩
    · exact Or.inr ⟨rest, .one htag, hwhole⟩
    · exact Or.inr ⟨t, .more htag htags, hwhole⟩
  | case6 s tag rest hget _ hcls =>
    rw [decode_of_getUint hget, hcls] at h
    exact absurd h Command.decode_ne_ok
  | case7 s tag rest hget _ hcls =>
    rw [decode_of_getUint hget, hcls] at h
    obtain ⟨body, hbody⟩ := Response.decode_ok h
    cases hbody
    exact Or.inl (.response ⟨tag, hget, hcls⟩ h)
  | case8 s tag rest hget _ hcls =>
    rw [decode_of_getUint hget, hcls] at h
    obtain ⟨body, hbody⟩ := Alert.decode_ok h
    cases hbody
    exact Or.inl (.alert ⟨tag, hget, hcls⟩ h)

end Base

namespace MessageDecoder

/-- The class of a decoded message is the one that the first uint selects. -/
def Decided (input : List UInt8) : Prop :=
  ∀ msg, decode input = some msg → ∃ rest, Base.Selects input msg.cls rest

theorem decode_eq_some {input : List UInt8} {msg : Message} :
    decode input = some msg ↔ ∃ r, Base.decode input = .ok (some msg, r) := by
  unfold decode
  cases Base.decode input with
  | ok p =>
    obtain ⟨m, r⟩ := p
    simp
  | error e => simp

/-- A frame is taken for what it does not say exactly when Error tags stand before a complete
message of another class. -/
theorem decided_iff (input : List UInt8) : Decided input ↔ ¬ Base.Wrapped input := by
  constructor
  · intro hdecided hwrapped
    obtain ⟨t, msg, htags, hwhole⟩ := hwrapped
    obtain ⟨r, hrun⟩ := hwhole.decode
    obtain ⟨rest, herror⟩ := htags.selects
    obtain ⟨rest', hcls⟩ := hdecided msg (decode_eq_some.mpr ⟨r, htags.decode.trans hrun⟩)
    have heq := herror.unique hcls
    cases msg <;> cases heq
  · intro hwrapped msg hrun
    obtain ⟨r, hrun⟩ := decode_eq_some.mp hrun
    rcases Base.decode_some hrun with hwhole | ⟨t, htags, hwhole⟩
    · exact hwhole.selects
    · exact absurd ⟨t, msg, htags, hwhole⟩ hwrapped

/-- A frame that begins with the tag of Error is decoded as a response. -/
theorem decided_error :
    decode [2, 4, 0, 0, 0] = some (.response ⟨false, 0, .write ⟨.success⟩⟩) ∧
    ¬ Decided [2, 4, 0, 0, 0] := by
  have htag : Base.Selects [2, 4, 0, 0, 0] .error [4, 0, 0, 0] :=
    ⟨2, InputCodec.getUint_small (by decide) _, rfl⟩
  have hrun : decode [2, 4, 0, 0, 0] = some (.response ⟨false, 0, .write ⟨.success⟩⟩) := by
    rw [decode, Base.decode_error_tag htag, Base.decode_response]
    rfl
  refine ⟨hrun, fun h => ?_⟩
  obtain ⟨rest, hcls⟩ := h _ hrun
  have heq := htag.unique hcls
  cases heq

end MessageDecoder

end Aloof.Ruby
