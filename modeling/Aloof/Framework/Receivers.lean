import Aloof.Framework.Stuffing

namespace Aloof.Framework.Receiver

variable {α : Type} {m : Marks α} (r r' : Receiver m)

/-- In a frame that ends, an escape mark comes before a letter that two receivers read in different
ways. -/
def Disputed (bs : List α) : Prop :=
  ∃ pre x post, bs = pre ++ m.esc :: x :: post ∧ x ≠ m.esc ∧ r.meaning x ≠ r'.meaning x ∧
    m.fin ∈ post

theorem not_disputed_nil : ¬ r.Disputed r' [] := by
  intro h
  obtain ⟨pre, x, post, h, -⟩ := h
  simp at h

theorem disputed_cons {b : α} (hb : b ≠ m.esc) (bs : List α) :
    r.Disputed r' (b :: bs) ↔ r.Disputed r' bs := by
  constructor
  · intro h
    obtain ⟨pre, x, post, h, hx⟩ := h
    cases pre with
    | nil => exact absurd (List.cons.inj h).1 hb
    | cons a pre => exact ⟨pre, x, post, (List.cons.inj h).2, hx⟩
  · intro h
    obtain ⟨pre, x, post, rfl, hx⟩ := h
    exact ⟨b :: pre, x, post, rfl, hx⟩

theorem disputed_esc (x : α) (bs : List α) :
    r.Disputed r' (m.esc :: x :: bs) ↔
      (x ≠ m.esc ∧ r.meaning x ≠ r'.meaning x ∧ m.fin ∈ bs) ∨ r.Disputed r' (x :: bs) := by
  constructor
  · intro h
    obtain ⟨pre, y, post, h, hy⟩ := h
    cases pre with
    | nil =>
      obtain ⟨rfl, rfl⟩ := List.cons.inj (List.cons.inj h).2
      exact Or.inl hy
    | cons a pre => exact Or.inr ⟨pre, y, post, (List.cons.inj h).2, hy⟩
  · rintro (hx | ⟨pre, y, post, h, hy⟩)
    · exact ⟨[], x, bs, rfl, hx⟩
    · exact ⟨m.esc :: pre, y, post, congrArg (List.cons m.esc) h, hy⟩

theorem not_disputed_esc : ¬ r.Disputed r' [m.esc] := by
  intro h
  obtain ⟨pre, x, post, h, -⟩ := h
  have hlength := congrArg List.length h
  simp only [List.length_append, List.length_cons, List.length_nil] at hlength
  omega

/-- The letters to come, behind the escape mark that is open. -/
def pending (m : Marks α) (escaped : Bool) (bs : List α) : List α :=
  if escaped then m.esc :: bs else bs

theorem infix_pending (e : Bool) (b : α) (bs : List α) : bs <:+: pending m e (b :: bs) := by
  cases e with
  | false => exact ⟨[b], [], by simp [pending]⟩
  | true => exact ⟨[m.esc, b], [], by simp [pending]⟩

theorem esc_infix_pending (e : Bool) (bs : List α) :
    pending m true bs <:+: pending m e (m.esc :: bs) := by
  cases e with
  | false => exact List.infix_refl _
  | true => exact ⟨[m.esc], [], by simp [pending]⟩

theorem disputed_pending_esc (e : Bool) (bs : List α) :
    r.Disputed r' (pending m e (m.esc :: bs)) ↔ r.Disputed r' (pending m true bs) := by
  cases e with
  | false => rfl
  | true => exact (r.disputed_esc r' m.esc bs).trans (or_iff_right fun h => h.1 rfl)

theorem disputed_pending (e : Bool) {b : α} (hb : b ≠ m.esc) (bs : List α) :
    r.Disputed r' (pending m e (b :: bs)) ↔
      (e = true ∧ r.meaning b ≠ r'.meaning b ∧ m.fin ∈ bs) ∨ r.Disputed r' bs := by
  cases e with
  | false => simpa [pending] using r.disputed_cons r' hb bs
  | true =>
    refine (r.disputed_esc r' b bs).trans ?_
    rw [r.disputed_cons r' hb]
    simp [hb]

def nonempty (f : List α) : Option (List α) := if f = [] then none else some f

/-- Leaving out the empty frames hides no difference between frames of the same lengths. -/
theorem filterMap_nonempty_inj {fs gs : List (List α)}
    (h : fs.map List.length = gs.map List.length) :
    fs.filterMap nonempty = gs.filterMap nonempty ↔ fs = gs := by
  refine ⟨fun heq => ?_, fun heq => heq ▸ rfl⟩
  induction fs generalizing gs with
  | nil => exact (List.map_eq_nil_iff.mp h.symm).symm
  | cons f fs ih =>
    cases gs with
    | nil => cases h
    | cons g gs =>
      obtain ⟨hlength, hlengths⟩ := List.cons.inj h
      by_cases hf : f = []
      · have hg : g = [] := List.length_eq_zero_iff.mp (by rw [← hlength, hf, List.length_nil])
        rw [hf, hg] at heq ⊢
        exact congrArg _ (ih hlengths heq)
      · have hg : g ≠ [] := by
          intro heq
          subst heq
          exact hf (List.length_eq_zero_iff.mp hlength)
        have hsome : nonempty f = some f := if_neg hf
        have hsome' : nonempty g = some g := if_neg hg
        rw [List.filterMap_cons_some hsome, List.filterMap_cons_some hsome'] at heq
        obtain ⟨rfl, htail⟩ := List.cons.inj heq
        exact congrArg _ (ih hlengths htail)

variable [DecidableEq α]

theorem step_bounds (s : Partial α) (b : α) :
    (r.step s b).1.contents.length ≤ s.contents.length + 1 ∧
    ∀ f, (r.step s b).2 = some f → f = s.contents := by
  unfold step
  split_ifs
  · exact ⟨Nat.le_succ _, fun f hf => by cases hf⟩
  · exact ⟨Nat.zero_le _, fun f hf => (Option.some.inj hf).symm⟩
  all_goals exact ⟨by simp, fun f hf => by cases hf⟩

/-- A frame has at most one letter for each letter received. -/
theorem frames_le (s : Partial α) (bs : List α) :
    ∀ f ∈ r.frames s bs, f.length ≤ s.contents.length + bs.length := by
  induction bs generalizing s with
  | nil =>
    intro f hf
    cases hf
  | cons b bs ih =>
    intro f hf
    obtain ⟨hlength, hout⟩ := r.step_bounds s b
    rw [frames, List.mem_append, Option.mem_toList] at hf
    rw [List.length_cons]
    rcases hf with hf | hf
    · rw [hout f hf]
      omega
    · have := ih _ f hf
      omega

/-- The frames are as long, and they are the same if what was collected is and nothing is
disputed. -/
def Settled (s s' : Partial α) (bs : List α) : Prop :=
  (r.frames s bs).map List.length = (r'.frames s' bs).map List.length ∧
  (r.frames s bs = r'.frames s' bs ↔
    (m.fin ∈ bs → s.contents = s'.contents) ∧ ¬ r.Disputed r' (pending m s.escaped bs))

section Letters

variable {c c' bs : List α} {e : Bool}

theorem settled_nil (s s' : Partial α) : r.Settled r' s s' [] := by
  refine ⟨rfl, iff_of_true rfl ⟨fun h => absurd h List.not_mem_nil, ?_⟩⟩
  unfold pending
  split_ifs
  · exact r.not_disputed_esc r'
  · exact r.not_disputed_nil r'

theorem settled_esc (h : r.Settled r' ⟨c, true⟩ ⟨c', true⟩ bs) :
    r.Settled r' ⟨c, e⟩ ⟨c', e⟩ (m.esc :: bs) := by
  obtain ⟨hlengths, hframes⟩ := h
  rw [Settled, frames, frames, step_esc, step_esc]
  refine ⟨hlengths, hframes.trans ?_⟩
  rw [disputed_pending_esc]
  simp [m.fin_ne_esc]

theorem settled_fin (hlength : c.length = c'.length) (h : r.Settled r' .start .start bs) :
    r.Settled r' ⟨c, false⟩ ⟨c', false⟩ (m.fin :: bs) := by
  obtain ⟨hlengths, hframes⟩ := h
  rw [Settled, frames, frames, step_fin _ _ (Or.inr rfl), step_fin _ _ (Or.inr rfl),
    r.disputed_pending r' _ m.fin_ne_esc]
  simp only [Option.toList_some, List.singleton_append, List.map_cons, List.cons.injEq]
  refine ⟨⟨hlength, hlengths⟩, ?_⟩
  rw [hframes]
  change c = c' ∧ (_ ∧ ¬ r.Disputed r' bs) ↔ _
  simp

/-- A letter behind an escape mark is disputed if the receivers read it in different ways. -/
theorem settled_letter {b : α} (hesc : b ≠ m.esc) (hfin : b ≠ m.fin)
    (h : r.Settled r' ⟨c ++ [if e then r.meaning b else b], false⟩
      ⟨c' ++ [if e then r'.meaning b else b], false⟩ bs) :
    r.Settled r' ⟨c, e⟩ ⟨c', e⟩ (b :: bs) := by
  obtain ⟨hlengths, hframes⟩ := h
  rw [Settled, frames, frames, step_letter _ _ hesc hfin, step_letter _ _ hesc hfin,
    r.disputed_pending r' _ hesc]
  refine ⟨hlengths, hframes.trans ?_⟩
  change (_ → _ ++ _ = _ ++ _) ∧ ¬ r.Disputed r' bs ↔ _
  have hmem : m.fin ∈ b :: bs ↔ m.fin ∈ bs := by simp [Ne.symm hfin]
  rw [← List.concat_eq_append, ← List.concat_eq_append, List.concat_inj, hmem]
  cases e with
  | false => simp
  | true =>
    simp only [if_true, true_and]
    tauto

end Letters

/-- Receivers that have collected as much collect as much, and agree on the frames that end
if they agreed so far and nothing is disputed. -/
theorem frames_eq_iff (s s' : Partial α) {bs : List α} (hescaped : s.escaped = s'.escaped)
    (hlength : s.contents.length = s'.contents.length)
    (hdangling : ¬ [m.esc, m.fin] <:+: pending m s.escaped bs) :
    (r.frames s bs).map List.length = (r'.frames s' bs).map List.length ∧
    (r.frames s bs = r'.frames s' bs ↔
      (m.fin ∈ bs → s.contents = s'.contents) ∧ ¬ r.Disputed r' (pending m s.escaped bs)) := by
  change r.Settled r' s s' bs
  induction bs generalizing s s' with
  | nil => exact r.settled_nil r' s s'
  | cons b bs ih =>
    obtain ⟨c, e⟩ := s
    obtain ⟨c', e'⟩ := s'
    obtain rfl : e = e' := hescaped
    have hrest : ¬ [m.esc, m.fin] <:+: bs := fun h => hdangling (h.trans (infix_pending e b bs))
    by_cases hesc : b = m.esc
    · subst hesc
      apply r.settled_esc r'
      exact ih ⟨c, true⟩ ⟨c', true⟩ rfl hlength
        fun h => hdangling (h.trans (esc_infix_pending e bs))
    by_cases hfin : b = m.fin
    · subst hfin
      obtain rfl : e = false := by
        by_contra he
        rw [Bool.not_eq_false] at he
        subst he
        exact hdangling ⟨[], bs, rfl⟩
      apply r.settled_fin r' hlength
      exact ih .start .start rfl rfl hrest
    · apply r.settled_letter r' hesc hfin
      refine ih _ _ rfl ?_ hrest
      rw [List.length_append, List.length_append]
      exact congrArg (· + 1) hlength

end Aloof.Framework.Receiver
