import Mathlib.Logic.Basic

namespace Aloof.Framework

/-- A start and guarded steps. -/
structure System (σ α : Type) where
  init : σ
  step : σ → α → Option σ

namespace System

variable {σ α : Type} {sys : System σ α} {ok ok' : σ → α → Prop} {s s' s'' : σ} {a : α}

/-- The runs from s whose steps all meet a condition on the action and the state before it. -/
inductive Path (sys : System σ α) (ok : σ → α → Prop) (s : σ) : σ → Prop where
  | nil : Path sys ok s s
  | snoc {s' s'' : σ} {a : α} (run : Path sys ok s s') (meets : ok s' a)
      (last : sys.step s' a = some s'') : Path sys ok s s''

/-- The states of all runs. -/
def Reachable (sys : System σ α) : σ → Prop := Path sys (fun _ _ => True) sys.init

/-- What holds at the start and is kept by every step. -/
structure Invariant (sys : System σ α) (P : σ → Prop) : Prop where
  init : P sys.init
  step : ∀ s a s', P s → sys.step s a = some s' → P s'

namespace Path

theorem trans (h : Path sys ok s s') (h' : Path sys ok s' s'') : Path sys ok s s'' := by
  induction h' with
  | nil => exact h
  | snoc _ meets last ih => exact .snoc ih meets last

theorem cons (meets : ok s a) (first : sys.step s a = some s') (h : Path sys ok s' s'') :
    Path sys ok s s'' :=
  (Path.nil.snoc meets first).trans h

theorem mono (h : Path sys ok s s') (hok : ∀ s a, ok s a → ok' s a) : Path sys ok' s s' := by
  induction h with
  | nil => exact .nil
  | snoc _ meets last ih => exact .snoc ih (hok _ _ meets) last

/-- The run of these actions. -/
theorem of_foldlM {as : List α} (hok : ∀ s, ∀ a ∈ as, ok s a)
    (h : as.foldlM sys.step s = some s') : Path sys ok s s' := by
  induction as generalizing s with
  | nil =>
    cases h
    exact .nil
  | cons a as ih =>
    rw [List.foldlM_cons] at h
    obtain ⟨s₁, hfirst, hrest⟩ := Option.bind_eq_some_iff.mp h
    exact .cons (hok s a List.mem_cons_self) hfirst
      (ih (fun s a ha => hok s a (List.mem_cons_of_mem _ ha)) hrest)

theorem reachable (h : Path sys ok s s') (hs : sys.Reachable s) : sys.Reachable s' :=
  Path.trans hs (h.mono fun _ _ _ => trivial)

end Path

/-- A first step, and the run from there. -/
theorem run_cons {as : List α} (first : sys.step s a = some s')
    (rest : as.foldlM sys.step s' = some s'') : (a :: as).foldlM sys.step s = some s'' := by
  rw [List.foldlM_cons, first]
  exact rest

theorem of_run_cons {as : List α} (h : (a :: as).foldlM sys.step s = some s'') :
    ∃ s', sys.step s a = some s' ∧ as.foldlM sys.step s' = some s'' := by
  rw [List.foldlM_cons] at h
  exact Option.bind_eq_some_iff.mp h

/-- An invariant holds in every reachable state. -/
theorem Invariant.reachable {P : σ → Prop} (hP : Invariant sys P) (h : sys.Reachable s) : P s := by
  induction h with
  | nil => exact hP.init
  | snoc _ _ last ih => exact hP.step _ _ _ ih last

/-- What the steps of a restricted run keep, given an invariant of all runs. -/
theorem Invariant.path {P Q : σ → Prop} (hP : Invariant sys P) (hs : sys.Reachable s) (hQ : Q s)
    (hstep : ∀ s a s', P s → Q s → ok s a → sys.step s a = some s' → Q s')
    (h : Path sys ok s s') : Q s' := by
  induction h with
  | nil => exact hQ
  | snoc run meets last ih => exact hstep _ _ _ (hP.reachable (run.reachable hs)) ih meets last

/-- What the actions of a run add to an output, when a step adds what its action says. -/
theorem Invariant.appends {ο : Type} {P : σ → Prop} {out : σ → List ο} {emit : α → List ο}
    (hP : Invariant sys P)
    (hstep : ∀ s a s', P s → sys.step s a = some s' → out s' = out s ++ emit a) {as : List α}
    (hs : P s) (h : as.foldlM sys.step s = some s') : out s' = out s ++ as.flatMap emit := by
  induction as generalizing s with
  | nil =>
    cases h
    rw [List.flatMap_nil, List.append_nil]
  | cons a as ih =>
    obtain ⟨s₁, hfirst, hrest⟩ := of_run_cons h
    rw [ih (hP.step s a s₁ hs hfirst) hrest, hstep s a s₁ hs hfirst, List.append_assoc,
      List.flatMap_cons]

/-- When each step is one of another system with an action of some kind, or is not seen there at
all, then so is each run: its actions of that kind are taken there, in their order. -/
theorem Invariant.erases {τ : Type} {sys' : System τ α} {P : σ → Prop} {kind : α → Prop}
    {seen : α → Bool} {abs : σ → τ} (hP : Invariant sys P)
    (hstep : ∀ s a s', P s → sys.step s a = some s' →
      (seen a = false ∧ abs s' = abs s) ∨ (kind a ∧ sys'.step (abs s) a = some (abs s')))
    {as : List α} (hs : P s) (h : as.foldlM sys.step s = some s') :
    ∃ as' : List α, as'.foldlM sys'.step (abs s) = some (abs s') ∧ as'.Sublist as ∧
      (∀ a ∈ as', kind a) ∧ as'.filter seen = as.filter seen := by
  induction as generalizing s with
  | nil =>
    cases h
    exact ⟨[], rfl, .refl [], nofun, rfl⟩
  | cons a as ih =>
    obtain ⟨s₁, hfirst, hrest⟩ := of_run_cons h
    obtain ⟨as', hrun, hsub, hkind, hseen⟩ := ih (hP.step s a s₁ hs hfirst) hrest
    rcases hstep s a s₁ hs hfirst with ⟨hunseen, habs⟩ | ⟨ha, hstep'⟩
    · refine ⟨as', habs ▸ hrun, hsub.cons a, hkind, ?_⟩
      rw [List.filter_cons_of_neg (by simp [hunseen]), hseen]
    · refine ⟨a :: as', run_cons hstep' hrun, hsub.cons_cons a,
        List.forall_mem_cons.mpr ⟨ha, hkind⟩, ?_⟩
      rw [List.filter_cons, List.filter_cons, hseen]

/-- A stretch of a run that can be repeated. -/
theorem Path.iterate {Q : Nat → σ → Prop} (h : sys.Reachable s) (hQ : Q 0 s)
    (hstep : ∀ n s, sys.Reachable s → Q n s → ∃ s', Path sys ok s s' ∧ Q (n + 1) s') (n : Nat) :
    ∃ s', Path sys ok s s' ∧ Q n s' := by
  induction n with
  | zero => exact ⟨s, .nil, hQ⟩
  | succ n ih =>
    obtain ⟨s₁, hs₁, hQ₁⟩ := ih
    obtain ⟨s₂, hs₂, hQ₂⟩ := hstep n s₁ (hs₁.reachable h) hQ₁
    exact ⟨s₂, hs₁.trans hs₂, hQ₂⟩

end System

section Calls

variable {σ τ ι κ ο : Type}

/-- The answers of a component to calls in a row, and the state that they leave it in. -/
def answers (call : σ → ι → ο × σ) : σ → List ι → List ο × σ
  | s, [] => ([], s)
  | s, i :: is =>
    ((call s i).1 :: (answers call (call s i).2 is).1, (answers call (call s i).2 is).2)

theorem answers_append (call : σ → ι → ο × σ) (s : σ) (is js : List ι) :
    answers call s (is ++ js) =
      ((answers call s is).1 ++ (answers call (answers call s is).2 js).1,
        (answers call (answers call s is).2 js).2) := by
  induction is generalizing s with
  | nil => rfl
  | cons i is ih => simp only [List.cons_append, answers, ih]

/-- Two components of which one answers for the other, call by call, answer for each other in
every run. -/
theorem answers_map {call : σ → ι → ο × σ} {call' : τ → κ → ο × τ} (abs : σ → τ) (f : ι → κ)
    (h : ∀ s i, call' (abs s) (f i) = ((call s i).1, abs (call s i).2)) (s : σ) (is : List ι) :
    answers call' (abs s) (is.map f) = ((answers call s is).1, abs (answers call s is).2) := by
  induction is generalizing s with
  | nil => rfl
  | cons i is ih => simp only [List.map_cons, answers, h, ih]

/-- What every call keeps is kept by all of them. -/
theorem answers_keep {call : σ → ι → ο × σ} {P : σ → Prop} (h : ∀ s i, P s → P (call s i).2) {s : σ}
    (hs : P s) (is : List ι) : P (answers call s is).2 := by
  induction is generalizing s with
  | nil => exact hs
  | cons i is ih => exact ih (h s i hs)

end Calls

end Aloof.Framework
