import Aloof.Framework.CriticalSection
import Aloof.Framework.Stuffing

namespace Aloof.Framework

variable {α μ : Type} {m : Marks α} [DecidableEq α]

/-- The marks and each letter by itself. -/
def Marks.pieces (m : Marks α) (f : List α) : List (List α) :=
  [m.fin] :: (f.map m.stuffed ++ [[m.fin]])

theorem Marks.flatten_pieces (m : Marks α) (f : List α) : (m.pieces f).flatten = m.wrap f := by
  simp [pieces, wrap, stuff, List.flatMap]

/-- A beginning of the pieces is that of a frame with as many letters. -/
theorem Marks.flatten_begun {f : List α} {written left : List (List α)}
    (h : written ++ left = m.pieces f) (hwritten : written ≠ []) (hleft : left ≠ []) :
    written.flatten = m.fin :: m.stuff (f.take (written.length - 1)) := by
  cases written with
  | nil => exact absurd rfl hwritten
  | cons piece written =>
    rw [pieces, List.cons_append, List.cons.injEq] at h
    obtain ⟨rfl, hrest⟩ := h
    have hlength := congrArg List.length hrest
    have hpos := List.length_pos_iff.mpr hleft
    simp only [List.length_append, List.length_map, List.length_singleton] at hlength
    have hletters : written = (f.take written.length).map m.stuffed := by
      calc
        written = (written ++ left).take written.length := List.take_left.symm
        _ = (f.map m.stuffed).take written.length := by
          rw [hrest, List.take_append_of_le_length (by rw [List.length_map]; omega)]
        _ = (f.take written.length).map m.stuffed := List.map_take.symm
    change m.fin :: written.flatten = m.fin :: m.stuff (f.take written.length)
    rw [stuff, List.flatMap, ← hletters]

variable (frame : μ → List α)

/-- What was sent of the frame of a job. -/
def Job.part (job : Job fun w => m.pieces (frame w)) : List α :=
  (frame job.what).take (job.written.length - 1)

/-- How far a job got. -/
inductive Job.Progress (job : Job fun w => m.pieces (frame w)) : Prop where
  | unbegun (output : job.output = []) (part : job.part frame = [])
  | begun (output : job.output = m.fin :: m.stuff (job.part frame))
  | sent (left : job.left = [])

theorem Job.output_done {job : Job fun w => m.pieces (frame w)} (hleft : job.left = []) :
    job.output = m.wrap (frame job.what) := by
  have hwhole := job.whole
  rw [hleft, List.append_nil] at hwhole
  rw [output, hwhole, m.flatten_pieces]

theorem Job.part_done {job : Job fun w => m.pieces (frame w)} (hleft : job.left = []) :
    job.part frame = frame job.what := by
  have hwhole := job.whole
  rw [hleft, List.append_nil] at hwhole
  rw [part, hwhole]
  apply List.take_of_length_le
  simp [Marks.pieces]

theorem Job.progress (job : Job fun w => m.pieces (frame w)) : job.Progress frame := by
  by_cases hleft : job.left = []
  · exact .sent hleft
  · by_cases hwritten : job.written = []
    · apply Progress.unbegun
      · rw [output, hwritten]
        rfl
      · rw [part, hwritten]
        rfl
    · exact .begun (Marks.flatten_begun job.whole hwritten hleft)

namespace Receiver

variable (r : Receiver m) {accept : List α → Option (List α)} {c : List α}

/-- A frame that is accepted comes out at the mark that ends it, or is still open. -/
structure Comes (accept : List α → Option (List α)) (c bs : List α) (fs : List (List α)) : Prop where
  frames : (r.frames ⟨c, false⟩ bs).filterMap accept ++
    (accept (r.after ⟨c, false⟩ bs).contents).toList = (c :: fs).filterMap accept
  escaped : (r.after ⟨c, false⟩ bs).escaped = false

theorem comes_nil : r.Comes accept c [] [] where
  frames := by cases h : accept c <;> simp [Receiver.frames, h]
  escaped := rfl

theorem comes_begun (f : List α) : r.Comes accept c (m.fin :: m.stuff f) [f] := by
  obtain ⟨hframes, hafter⟩ := r.run_stuff .start rfl f
  have hfin := r.step_fin ⟨c, false⟩ (Or.inr rfl)
  constructor
  · rw [Receiver.frames, after_cons, hfin, hframes, hafter]
    cases h : accept c <;> cases h' : accept f <;> simp [Partial.start, h, h']
  · rw [after_cons, hfin, hafter]

theorem comes_sent (hnil : accept [] = none) (f : List α) : r.Comes accept c (m.wrap f) [f] := by
  obtain ⟨hframes, hafter⟩ := r.run_wrap ⟨c, false⟩ (Or.inr rfl) f
  constructor
  · rw [hframes, hafter]
    simp [Partial.start, hnil]
  · rw [hafter]
    rfl

theorem comes_part (hnil : accept [] = none) (job : Job fun w => m.pieces (frame w)) :
    r.Comes accept c job.output [job.part frame] := by
  cases job.progress frame with
  | unbegun houtput hpart =>
    rw [houtput, hpart]
    refine ⟨?_, rfl⟩
    cases h : accept c <;> simp [Receiver.frames, h, hnil]
  | begun houtput =>
    rw [houtput]
    exact r.comes_begun _
  | sent hleft =>
    rw [job.output_done frame hleft, job.part_done frame hleft]
    exact r.comes_sent hnil _

theorem filterMap_cons_toList {β γ : Type} (accept : β → Option γ) (b : β) (bs : List β) :
    (b :: bs).filterMap accept = (accept b).toList ++ bs.filterMap accept := by
  cases h : accept b <;> simp [h]

theorem Comes.append {bs cs : List α} {fs gs : List (List α)} (h : r.Comes accept c bs fs)
    (h' : ∀ c, r.Comes accept c cs gs) : r.Comes accept c (bs ++ cs) (fs ++ gs) := by
  obtain ⟨hframes, hescaped⟩ := h
  obtain ⟨c', e, hafter⟩ : ∃ c' e, r.after ⟨c, false⟩ bs = ⟨c', e⟩ := ⟨_, _, rfl⟩
  rw [hafter] at hframes hescaped
  obtain rfl : e = false := hescaped
  obtain ⟨hframes', hescaped'⟩ := h' c'
  constructor
  · rw [frames_append, after_append, hafter, List.filterMap_append, List.append_assoc, hframes',
      filterMap_cons_toList, ← List.append_assoc, hframes, ← List.filterMap_append]
    rfl
  · rw [after_append, hafter]
    exact hescaped'

/-- Jobs one behind the other, each as far as it got. -/
theorem comes_jobs (hnil : accept [] = none) (jobs : List (Job fun w => m.pieces (frame w)))
    (c : List α) : r.Comes accept c (jobs.flatMap Job.output) (jobs.map (Job.part frame)) := by
  induction jobs generalizing c with
  | nil => exact r.comes_nil
  | cons job jobs ih => exact (r.comes_part frame hnil job).append r ih

section Unbroken

theorem frames_wraps (hnil : accept [] = none) (fs : List (List α)) :
    (r.frames .start (m.wraps fs)).filterMap accept = fs.filterMap accept ∧
    r.after .start (m.wraps fs) = .start := by
  induction fs with
  | nil => exact ⟨rfl, rfl⟩
  | cons f fs ih =>
    obtain ⟨hframes, hafter⟩ := r.run_wrap .start r.start_ends f
    have hwraps : m.wraps (f :: fs) = m.wrap f ++ m.wraps fs := rfl
    rw [hwraps, frames_append, after_append, hframes, hafter, List.filterMap_append, ih.1,
      filterMap_cons_toList accept f fs]
    refine ⟨?_, ih.2⟩
    change ([[], f] : List (List α)).filterMap accept ++ _ = _
    rw [List.filterMap_cons_none hnil, filterMap_cons_toList]
    simp

/-- The calls at a job, which may be in progress. -/
theorem frames_job (hnil : accept [] = none) (job : Job fun w => m.pieces (frame w)) :
    (r.frames .start job.output).filterMap accept =
      if job.left.isEmpty then (accept (frame job.what)).toList else [] := by
  by_cases hleft : job.left = []
  · obtain ⟨hframes, -⟩ := r.run_wrap .start r.start_ends (frame job.what)
    rw [Job.output_done frame hleft, hframes, hleft]
    change ([[], frame job.what] : List (List α)).filterMap accept = _
    rw [List.filterMap_cons_none hnil, filterMap_cons_toList]
    simp
  · rw [if_neg (by simpa using hleft)]
    cases job.progress frame with
    | unbegun houtput => rw [houtput]; rfl
    | begun houtput =>
      obtain ⟨hframes, -⟩ := r.run_stuff .start rfl (job.part frame)
      rw [houtput, Receiver.frames, r.step_fin .start r.start_ends, hframes]
      change ([[]] : List (List α)).filterMap accept = []
      rw [List.filterMap_cons_none hnil]
      rfl
    | sent hdone => exact absurd hdone hleft

/-- Jobs that were all sent to the end, up to the last, which may be in progress. -/
theorem unbroken (hnil : accept [] = none) {ended : List (Job fun w => m.pieces (frame w))}
    (hended : ∀ job ∈ ended, job.left = [])
    (current : Option (Job fun w => m.pieces (frame w))) :
    (r.frames .start ((ended ++ current.toList).flatMap Job.output)).filterMap accept =
      ((ended ++ current.toList).filter fun job => job.left.isEmpty).filterMap
        fun job => accept (frame job.what) := by
  have houtput : ended.flatMap Job.output = m.wraps (ended.map fun job => frame job.what) := by
    rw [Marks.wraps, List.map_map, List.flatMap]
    congr 1
    apply List.map_congr_left
    intro job hjob
    exact job.output_done frame (hended job hjob)
  have hfilter : (ended.filter fun job => job.left.isEmpty) = ended :=
    List.filter_eq_self.mpr fun job hjob => by rw [hended job hjob]; rfl
  obtain ⟨hframes, hafter⟩ := r.frames_wraps hnil (ended.map fun job => frame job.what)
  rw [List.flatMap_append, frames_append, List.filterMap_append, houtput, hframes, hafter,
    List.filter_append, List.filterMap_append, hfilter, List.filterMap_map]
  refine congrArg (_ ++ ·) ?_
  cases current with
  | none => rfl
  | some job =>
    rw [Option.toList_some, List.flatMap_singleton, r.frames_job frame hnil, List.filter_singleton]
    cases job.left.isEmpty with
    | true =>
      change _ = ([job] : List _).filterMap _
      rw [filterMap_cons_toList]
      simp
    | false => rfl

end Unbroken

end Receiver

end Aloof.Framework
