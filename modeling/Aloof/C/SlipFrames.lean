import Mathlib.Data.List.Induction
import Aloof.C.SlipProof

namespace Aloof.C.Slip

open Framework

variable {σ τ : Type} (arg : SlipInitArg τ)

section Link

theorem kept_whole {max : Nat} {p : List UInt8} (hpos : 1 ≤ p.length) (hfit : p.length ≤ max) :
    kept max p = some p := by
  have hne : p ≠ [] := List.length_pos_iff.mp hpos
  rw [kept, List.take_of_length_le hfit]
  exact if_neg hne

/-- After whatever was received before, payloads arrive whole and in order, however often put_fn
has to be called. -/
theorem link (noise : List UInt8) (sender : Slip σ) (payloads : List (List UInt8))
    (hpayloads : ∀ p ∈ payloads, 1 ≤ p.length ∧ p.length ≤ arg.max.toNat) :
    (∃ sent, (sender.sendAll payloads).state.sent = sender.state.sent ++ sent ∧
      slipMarks.Resynchronises (fun bs => (((init arg).decodeAll noise).1.decodeAll bs).2) sent
        payloads) ∧
    ∀ bs, ((init arg).decodeAll bs).1.max = arg.max ∧
      ((init arg).decodeAll bs).1.len ≤ arg.max := by
  constructor
  · refine ⟨slipMarks.wraps payloads, sender.sendAll_sent payloads, ?_⟩
    obtain ⟨hrep, -⟩ := (init arg).decodeAll_represents (init_represents arg) noise
    have hdeliver : (fun bs => (((init arg).decodeAll noise).1.decodeAll bs).2) = fun bs =>
        (receiver.frames (receiver.after .start noise) bs).filterMap (kept arg.max.toNat) := by
      funext bs
      rw [(decodeAll_represents _ hrep bs).2, decodeAll_max]
      rfl
    have hkept : ∀ p ∈ payloads, kept arg.max.toNat (id p) = some p :=
      fun p hp => kept_whole (hpayloads p hp).1 (hpayloads p hp).2
    have hsync := receiver.resynchronises (receiver.after .start noise) (Or.inl rfl)
      (show kept arg.max.toNat [] = none by simp [kept]) id hkept
    rwa [List.map_id, ← hdeliver] at hsync
  · intro bs
    have hmax : ((init arg).decodeAll bs).1.max = arg.max := decodeAll_max _ bs
    exact ⟨hmax, hmax ▸ ((init arg).decodeAll bs).1.len_le⟩

/-- Rejects every byte once. -/
def busy : PutFn Bool where
  call user _ := (user, !user)
  finite c := by
    have htrue : Acc (fun user' user => ((user, !user) : Bool × Bool) = (false, user')) true :=
      ⟨_, fun user' h => by cases h⟩
    refine ⟨fun user => ⟨_, fun user' h => ?_⟩⟩
    cases user
    · cases h
      exact htrue
    · cases h

def busySender : Slip Bool := init ⟨[], 0, false, busy, List.length_nil⟩

def fourBytes : SlipInitArg Bool := ⟨[0, 0, 0, 0], 4, false, busy, rfl⟩

/-- Two payloads with both marks in them, after a byte and a dangling escape. -/
theorem link_noise :
    ∃ sent, (busySender.sendAll [[192, 219], [1, 2, 3, 4]]).state.sent = [] ++ sent ∧
      slipMarks.Resynchronises
        (fun bs => (((init fourBytes).decodeAll [65, 219]).1.decodeAll bs).2) sent
        [[192, 219], [1, 2, 3, 4]] :=
  (link fourBytes [65, 219] busySender [[192, 219], [1, 2, 3, 4]] (by decide)).1

end Link

section Whole

/-- seg is what came since the last END, or since the start. -/
def SinceEnd (pre seg : List UInt8) : Prop :=
  endChar ∉ seg ∧ (pre = seg ∨ ∃ head, pre = head ++ endChar :: seg)

/-- The unescaped content of bytes without an END. -/
def content (seg : List UInt8) : List UInt8 := receiver.unstuff false seg

/-- Every frame that comes out is all that came since the last END. -/
def WholeFrames (bs : List UInt8) : Prop :=
  ∀ pre c post frame, bs = pre ++ c :: post →
    (((init arg).decodeAll pre).1.decode c).2 = some frame →
    c = endChar ∧ ∃ seg, SinceEnd pre seg ∧ frame = content seg

theorem exists_sinceEnd (pre : List UInt8) : ∃ seg, SinceEnd pre seg := by
  induction pre using List.reverseRecOn with
  | nil => exact ⟨[], by simp, Or.inl rfl⟩
  | append_singleton pre c ih =>
    by_cases hc : c = endChar
    · exact ⟨[], by simp, Or.inr ⟨pre, by rw [hc]⟩⟩
    · obtain ⟨seg, hseg, hpre⟩ := ih
      have hmem : endChar ∉ seg ++ [c] := by
        rw [List.mem_append, List.mem_singleton]
        rintro (h | h)
        · exact hseg h
        · exact hc h.symm
      refine ⟨seg ++ [c], hmem, ?_⟩
      rcases hpre with rfl | ⟨head, rfl⟩
      · exact Or.inl rfl
      · exact Or.inr ⟨head, by simp⟩

/-- An END forgets everything before it. -/
theorem contents_of_sinceEnd {pre seg : List UInt8} (h : SinceEnd pre seg) :
    (receiver.after .start pre).contents = content seg := by
  obtain ⟨hseg, rfl | ⟨head, rfl⟩⟩ := h
  · exact (receiver.open_run .start hseg).2
  · rw [Receiver.after_append, Receiver.after_cons, show endChar = slipMarks.fin from rfl,
      Receiver.step_fin _ _ (Or.inl rfl)]
    exact (receiver.open_run .start hseg).2

theorem decode_frame (pre : List UInt8) (c : UInt8) (frame : List UInt8) :
    (((init arg).decodeAll pre).1.decode c).2 = some frame ↔
      c = endChar ∧ kept arg.max.toNat (receiver.after .start pre).contents = some frame := by
  obtain ⟨hrep, -⟩ := (init arg).decodeAll_represents (init_represents arg) pre
  rw [(decode_represents _ c hrep).2, decodeAll_max]
  by_cases hesc : c = escapeChar
  · rw [hesc, show escapeChar = slipMarks.esc from rfl, Receiver.step_esc]
    simp [slipMarks, endChar]
  by_cases hend : c = endChar
  · rw [hend, show endChar = slipMarks.fin from rfl, Receiver.step_fin _ _ (Or.inl rfl)]
    simp [init]
  · rw [Receiver.step_letter _ _ hesc hend]
    simp [hend]

/-- A frame that the buffer does not hold comes out shortened. -/
theorem whole_frames (bs : List UInt8) :
    WholeFrames arg bs ↔ arg.max = 0 ∨ ∀ pre seg post, bs = pre ++ endChar :: post →
      SinceEnd pre seg → (content seg).length ≤ arg.max.toNat := by
  constructor
  · intro hwhole
    by_contra hnot
    rw [not_or] at hnot
    obtain ⟨hmax, hnot⟩ := hnot
    apply hnot
    intro pre seg post hbs hseg
    by_contra hlong
    have hpos : arg.max.toNat ≠ 0 := fun h => hmax (UInt32.toNat_inj.mp h)
    have hkept : kept arg.max.toNat (receiver.after .start pre).contents =
        some ((content seg).take arg.max.toNat) := by
      rw [contents_of_sinceEnd hseg, kept]
      refine if_neg fun hnil => ?_
      have hlength := congrArg List.length hnil
      rw [List.length_take, List.length_nil] at hlength
      omega
    obtain ⟨-, seg', hseg', hframe⟩ :=
      hwhole pre endChar post _ hbs ((decode_frame arg pre endChar _).mpr ⟨rfl, hkept⟩)
    rw [← contents_of_sinceEnd hseg', contents_of_sinceEnd hseg] at hframe
    have hlength := congrArg List.length hframe
    rw [List.length_take] at hlength
    omega
  · intro hcond pre c post frame hbs hframe
    obtain ⟨rfl, hkept⟩ := (decode_frame arg pre c frame).mp hframe
    obtain ⟨seg, hseg⟩ := exists_sinceEnd pre
    refine ⟨rfl, seg, hseg, ?_⟩
    rw [contents_of_sinceEnd hseg, kept] at hkept
    split_ifs at hkept with hnil
    rcases hcond with hmax | hfit
    · rw [hmax] at hnil
      exact absurd rfl hnil
    · rw [List.take_of_length_le (hfit pre seg post hbs hseg)] at hkept
      exact (Option.some.inj hkept).symm

/-- Five bytes for a buffer of four. -/
theorem whole_frames_long :
    ((init fourBytes).decodeAll [1, 2, 3, 4, 5, 192]).2 = [[1, 2, 3, 4]] ∧
    ¬ WholeFrames fourBytes [1, 2, 3, 4, 5, 192] := by
  refine ⟨by decide, fun hwhole => ?_⟩
  obtain ⟨-, seg, ⟨-, hseg⟩, hframe⟩ :=
    hwhole [1, 2, 3, 4, 5] 192 [] [1, 2, 3, 4] rfl (by decide)
  rcases hseg with rfl | ⟨head, hhead⟩
  · exact absurd hframe (by decide)
  · have hmem : endChar ∈ [1, 2, 3, 4, 5] := by simp [hhead]
    exact absurd hmem (by decide)

end Whole

end Aloof.C.Slip
