import Mathlib.Data.List.Basic

namespace Aloof.Framework

variable {α β : Type} {mark : α}

/-- A front without a mark ends at the first mark. -/
theorem front_unique {xs ys zs ws : List α} (hxs : mark ∉ xs) (hys : mark ∉ ys)
    (h : xs ++ mark :: zs = ys ++ mark :: ws) : xs = ys ∧ zs = ws := by
  induction xs generalizing ys with
  | nil =>
    cases ys with
    | nil => exact ⟨rfl, (List.cons.inj h).2⟩
    | cons y ys =>
      obtain ⟨rfl, -⟩ := List.cons.inj h
      exact absurd List.mem_cons_self hys
  | cons x xs ih =>
    cases ys with
    | nil =>
      obtain ⟨rfl, -⟩ := List.cons.inj h
      exact absurd List.mem_cons_self hxs
    | cons y ys =>
      obtain ⟨rfl, hrest⟩ := List.cons.inj h
      obtain ⟨rfl, hzs⟩ := ih (List.not_mem_of_not_mem_cons hxs)
        (List.not_mem_of_not_mem_cons hys) hrest
      exact ⟨rfl, hzs⟩

def lines (mark : α) (line : β → List α) (ps : List β) : List α :=
  ps.flatMap fun p => line p ++ [mark]

theorem lines_cons (line : β → List α) (p : β) (ps : List β) :
    lines mark line (p :: ps) = line p ++ mark :: lines mark line ps := by
  rw [lines, List.flatMap_cons, List.append_assoc, List.singleton_append]
  rfl

theorem lines_cons_ne_nil (line : β → List α) (p : β) (ps : List β) :
    lines mark line (p :: ps) ≠ [] := by
  rw [lines_cons]
  exact List.append_ne_nil_of_right_ne_nil (line p) (List.cons_ne_nil _ _)

/-- Where no line has a mark, and each tells what it is about, so does the text. -/
theorem lines_injective {line : β → List α} {P : β → Prop} (hmark : ∀ p, P p → mark ∉ line p)
    (hline : ∀ p q, P p → P q → line p = line q → p = q) {ps qs : List β}
    (hps : ∀ p ∈ ps, P p) (hqs : ∀ q ∈ qs, P q)
    (h : lines mark line ps = lines mark line qs) : ps = qs := by
  induction ps generalizing qs with
  | nil =>
    cases qs with
    | nil => rfl
    | cons q qs => exact absurd h.symm (lines_cons_ne_nil line q qs)
  | cons p ps ih =>
    cases qs with
    | nil => exact absurd h (lines_cons_ne_nil line p ps)
    | cons q qs =>
      rw [List.forall_mem_cons] at hps hqs
      rw [lines_cons, lines_cons] at h
      obtain ⟨hfirst, hrest⟩ := front_unique (hmark p hps.1) (hmark q hqs.1) h
      rw [hline p q hps.1 hqs.1 hfirst, ih hps.2 hqs.2 hrest]

end Aloof.Framework
