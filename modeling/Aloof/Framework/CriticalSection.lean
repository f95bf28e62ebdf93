import Mathlib.Logic.Function.Basic
import Mathlib.Tactic.SplitIfs
import Aloof.Framework.Transition

namespace Aloof.Framework

/-- The pieces of a job: those that were written, and those that are left. -/
structure Job {μ β : Type} (pieces : μ → List (List β)) where
  what : μ
  written : List (List β)
  left : List (List β)
  whole : written ++ left = pieces what

/-- What a job has written. -/
def Job.output {μ β : Type} {pieces : μ → List (List β)} (job : Job pieces) : List β :=
  job.written.flatten

namespace CriticalSection

variable {ι μ β : Type} (pieces : μ → List (List β))

/-- The place of a thread: not in a call, before the lock, and behind it. -/
inductive Place where
  | outside
  | wants (what : μ)
  | inside (job : Job pieces)

def Place.job? {pieces : μ → List (List β)} : Place pieces → Option (Job pieces)
  | .inside job => some job
  | _ => none

/-- ended is history: the jobs whose threads left, in the order of the lock. -/
structure State (ι : Type) where
  place : ι → Place pieces
  lock : Option ι
  log : List β
  ended : List (Job pieces)

inductive Action (ι μ : Type) where
  | call (i : ι) (what : μ)
  | enter (i : ι)
  | write (i : ι)
  | leave (i : ι)
  | abort (i : ι)

variable {pieces} {s s' : State pieces ι} {a : Action ι μ}

def start : State pieces ι := ⟨fun _ => .outside, none, [], []⟩

/-- The job of the thread that has the lock. -/
def State.current (s : State pieces ι) : Option (Job pieces) :=
  s.lock.bind fun i => (s.place i).job?

/-- All jobs that were begun, in the order of the lock. -/
def State.jobs (s : State pieces ι) : List (Job pieces) := s.ended ++ s.current.toList

/-- The threads behind the lock are the one that has it, and the jobs are written one behind the
other. -/
structure Serial (s : State pieces ι) : Prop where
  inside : ∀ i job, s.place i = .inside job → s.lock = some i
  held : ∀ i, s.lock = some i → ∃ job, s.place i = .inside job
  log : s.log = s.jobs.flatMap Job.output

theorem current_of_inside {i : ι} {job : Job pieces} (hlock : s.lock = some i)
    (hinside : s.place i = .inside job) : s.current = some job := by
  rw [State.current, hlock, Option.bind_some, hinside]
  rfl

theorem current_of_free (hfree : s.lock = none) : s.current = none := by
  rw [State.current, hfree]
  rfl

theorem current_congr (hlock : s'.lock = s.lock)
    (hplace : ∀ i, s.lock = some i → s'.place i = s.place i) : s'.current = s.current := by
  rw [State.current, State.current, hlock]
  cases hheld : s.lock with
  | none => rfl
  | some i => rw [Option.bind_some, Option.bind_some, hplace i hheld]

theorem serial_start : Serial (start : State pieces ι) where
  inside i job h := by cases h
  held i h := by cases h
  log := rfl

/-- A thread that is not behind the lock has not got it. -/
theorem Serial.not_held (h : Serial s) {i : ι} (hplace : ∀ job, s.place i ≠ .inside job) :
    s.lock ≠ some i := by
  intro hlock
  obtain ⟨job, hinside⟩ := h.held i hlock
  exact hplace job hinside

section Steps

variable [DecidableEq ι]

def call (i : ι) (what : μ) (s : State pieces ι) : Option (State pieces ι) :=
  match s.place i with
  | .outside => some { s with place := Function.update s.place i (.wants what) }
  | _ => none

/-- The lock is free, and is taken. -/
def enter (i : ι) (s : State pieces ι) : Option (State pieces ι) :=
  match s.place i, s.lock with
  | .wants what, none =>
    some { s with
      place := Function.update s.place i (.inside ⟨what, [], pieces what, rfl⟩)
      lock := some i }
  | _, _ => none

/-- The next piece. Nothing is asked of the lock here. -/
def write (i : ι) (s : State pieces ι) : Option (State pieces ι) :=
  match s.place i with
  | .inside ⟨what, written, piece :: left, whole⟩ =>
    some { s with
      place := Function.update s.place i
        (.inside ⟨what, written ++ [piece], left, by simpa using whole⟩)
      log := s.log ++ piece }
  | _ => none

/-- The lock is free again. -/
def exit (i : ι) (job : Job pieces) (s : State pieces ι) : State pieces ι :=
  { s with
    place := Function.update s.place i .outside
    lock := none
    ended := s.ended ++ [job] }

def leave (i : ι) (s : State pieces ι) : Option (State pieces ι) :=
  match s.place i with
  | .inside job => if job.left.isEmpty then some (exit i job s) else none
  | _ => none

/-- An exception may end a job at any time. -/
def abort (i : ι) (s : State pieces ι) : Option (State pieces ι) :=
  match s.place i with
  | .inside job => some (exit i job s)
  | _ => none

def step (s : State pieces ι) : Action ι μ → Option (State pieces ι)
  | .call i what => call i what s
  | .enter i => enter i s
  | .write i => write i s
  | .leave i => leave i s
  | .abort i => abort i s

def system : System (State pieces ι) (Action ι μ) := ⟨start, step⟩

/-- What each action can do. -/
inductive Step (s : State pieces ι) : Action ι μ → State pieces ι → Prop where
  | call (i : ι) (what : μ) (outside : s.place i = .outside) :
    Step s (.call i what) { s with place := Function.update s.place i (.wants what) }
  | enter (i : ι) (what : μ) (wants : s.place i = .wants what) (free : s.lock = none) :
    Step s (.enter i) { s with
      place := Function.update s.place i (.inside ⟨what, [], pieces what, rfl⟩)
      lock := some i }
  | write (i : ι) (job job' : Job pieces) (piece : List β) (inside : s.place i = .inside job)
      (written : job'.written = job.written ++ [piece]) (left : job.left = piece :: job'.left)
      (what : job'.what = job.what) :
    Step s (.write i) { s with
      place := Function.update s.place i (.inside job')
      log := s.log ++ piece }
  | leave (i : ι) (job : Job pieces) (inside : s.place i = .inside job) (done : job.left = []) :
    Step s (.leave i) (exit i job s)
  | abort (i : ι) (job : Job pieces) (inside : s.place i = .inside job) :
    Step s (.abort i) (exit i job s)

theorem step_cases (h : system.step s a = some s') : Step s a s' := by
  change step s a = some s' at h
  cases a with
  | call i what =>
    simp only [step, call] at h
    split at h
    next houtside => cases h; exact .call i what houtside
    next => cases h
  | enter i =>
    simp only [step, enter] at h
    split at h
    next what hwants hfree => cases h; exact .enter i what hwants hfree
    next => cases h
  | write i =>
    simp only [step, write] at h
    split at h
    next what written piece left whole hinside =>
      cases h
      exact .write i _ _ piece hinside rfl rfl rfl
    next => cases h
  | leave i =>
    simp only [step, leave] at h
    split at h
    next job hinside =>
      split_ifs at h with hdone
      cases h
      exact .leave i job hinside (List.isEmpty_iff.mp hdone)
    next => cases h
  | abort i =>
    simp only [step, abort] at h
    split at h
    next job hinside => cases h; exact .abort i job hinside
    next => cases h

theorem Serial.call (h : Serial s) {i : ι} (what : μ) (houtside : s.place i = .outside) :
    Serial { s with place := Function.update s.place i (.wants what) } := by
  have hnot : s.lock ≠ some i := h.not_held (by simp [houtside])
  have hkept (k : ι) (hk : s.lock = some k) :
      Function.update s.place i (.wants what) k = s.place k := by
    apply Function.update_of_ne
    rintro rfl
    exact hnot hk
  refine ⟨fun k job hk => ?_, fun k hk => ?_, ?_⟩
  · by_cases heq : k = i
    · simp [heq] at hk
    · exact h.inside k job (by simpa [heq] using hk)
  · obtain ⟨job, hjob⟩ := h.held k hk
    exact ⟨job, (hkept k hk).trans hjob⟩
  · have hcurrent : State.current { s with place := Function.update s.place i (.wants what) } =
        s.current := current_congr rfl hkept
    rw [State.jobs, hcurrent]
    exact h.log

theorem Serial.enter (h : Serial s) (i : ι) (what : μ) (hfree : s.lock = none) :
    Serial { s with
      place := Function.update s.place i (.inside ⟨what, [], pieces what, rfl⟩)
      lock := some i } := by
  refine ⟨fun k job hk => ?_, fun k hk => ?_, ?_⟩
  · by_cases heq : k = i
    · rw [heq]
    · have hlock := h.inside k job (by simpa [heq] using hk)
      cases hfree.symm.trans hlock
  · cases hk
    exact ⟨_, Function.update_self _ _ _⟩
  · rw [State.jobs, current_of_inside rfl (Function.update_self _ _ _)]
    have hlog := h.log
    rw [State.jobs, current_of_free hfree, Option.toList_none, List.append_nil] at hlog
    rw [List.flatMap_append, hlog]
    simp [Job.output]

theorem Serial.write (h : Serial s) {i : ι} {job job' : Job pieces} {piece : List β}
    (hinside : s.place i = .inside job) (hwritten : job'.written = job.written ++ [piece]) :
    Serial { s with
      place := Function.update s.place i (.inside job')
      log := s.log ++ piece } := by
  have hlock := h.inside i job hinside
  refine ⟨fun k job'' hk => ?_, fun k hk => ?_, ?_⟩
  · by_cases heq : k = i
    · rw [heq]
      exact hlock
    · exact h.inside k job'' (by simpa [heq] using hk)
  · cases hlock.symm.trans hk
    exact ⟨_, Function.update_self _ _ _⟩
  · have hcurrent : State.current { s with
        place := Function.update s.place i (.inside job')
        log := s.log ++ piece } = some job' :=
      current_of_inside hlock (Function.update_self _ _ _)
    have hlog := h.log
    rw [State.jobs, current_of_inside hlock hinside] at hlog
    rw [State.jobs, hcurrent, hlog]
    simp [Job.output, hwritten]

theorem Serial.exit (h : Serial s) {i : ι} {job : Job pieces} (hinside : s.place i = .inside job) :
    Serial (exit i job s) := by
  have hlock := h.inside i job hinside
  refine ⟨fun k job' hk => ?_, fun k hk => ?_, ?_⟩
  · by_cases heq : k = i
    · simp [CriticalSection.exit, heq] at hk
    · have hlock' := h.inside k job' (by simpa [CriticalSection.exit, heq] using hk)
      exact absurd (Option.some.inj (hlock'.symm.trans hlock)) heq
  · cases hk
  · have hlog := h.log
    rw [State.jobs, current_of_inside hlock hinside] at hlog
    rw [State.jobs, current_of_free rfl, Option.toList_none, List.append_nil]
    exact hlog

theorem Serial.step (h : Serial s) (hstep : Step s a s') : Serial s' := by
  cases hstep with
  | call i what houtside => exact h.call what houtside
  | enter i what hwants hfree => exact h.enter i what hfree
  | write i job job' piece hinside hwritten hleft hwhat => exact h.write hinside hwritten
  | leave i job hinside hdone => exact h.exit hinside
  | abort i job hinside => exact h.exit hinside

theorem serial_invariant : System.Invariant (system : System (State pieces ι) (Action ι μ)) Serial where
  init := serial_start
  step _ _ _ h hstep := h.step (step_cases hstep)

/-- Jobs that have ended are done if none was aborted. -/
theorem ended_done (h : System.Path (system : System (State pieces ι) (Action ι μ))
    (fun _ a => ∀ i, a ≠ .abort i) system.init s) : ∀ job ∈ s.ended, job.left = [] := by
  refine serial_invariant.path (Q := fun s => ∀ job ∈ s.ended, job.left = []) .nil
    (fun job hjob => by cases hjob) ?_ h
  intro s a s' _ hdone hnone hstep
  cases step_cases hstep with
  | leave i job hinside hleft =>
    intro job' hjob'
    rcases List.mem_append.mp hjob' with hjob' | hjob'
    · exact hdone job' hjob'
    · rw [List.mem_singleton.mp hjob']
      exact hleft
  | abort i job hinside => exact absurd rfl (hnone i)
  | _ => exact hdone

end Steps

end CriticalSection

end Aloof.Framework
