import Mathlib.Data.List.Basic
import Mathlib.Tactic.SplitIfs

namespace Aloof.Framework

/-- An end mark, an escape mark, and a stand-in for each of them behind an escape mark. -/
structure Marks (α : Type) where
  fin : α
  esc : α
  escFin : α
  escEsc : α
  distinct : [fin, esc, escFin, escEsc].Nodup

/-- What came since the last end mark, and whether an escape mark was the last of it. -/
structure Partial (α : Type) where
  contents : List α
  escaped : Bool

def Partial.start {α : Type} : Partial α := ⟨[], false⟩

/-- How a receiver reads a letter behind an escape mark, and whether an end mark ends the frame
there as everywhere. -/
structure Receiver {α : Type} (m : Marks α) where
  meaning : α → α
  closes : Bool
  meaning_escFin : meaning m.escFin = m.fin
  meaning_escEsc : meaning m.escEsc = m.esc

variable {α : Type} (m : Marks α)

namespace Marks

theorem fin_ne_esc : m.fin ≠ m.esc := by
  have h := m.distinct
  simp only [List.nodup_cons, List.mem_cons, not_or] at h
  exact h.1.1

theorem escFin_ne : m.escFin ≠ m.fin ∧ m.escFin ≠ m.esc := by
  have h := m.distinct
  simp only [List.nodup_cons, List.mem_cons, not_or] at h
  exact ⟨Ne.symm h.1.2.1, Ne.symm h.2.1.1⟩

theorem escEsc_ne : m.escEsc ≠ m.fin ∧ m.escEsc ≠ m.esc := by
  have h := m.distinct
  simp only [List.nodup_cons, List.mem_cons, not_or] at h
  exact ⟨Ne.symm h.1.2.2.1, Ne.symm h.2.1.2.1⟩

variable [DecidableEq α]

def stuffed (b : α) : List α :=
  if b = m.fin then [m.esc, m.escFin] else if b = m.esc then [m.esc, m.escEsc] else [b]

def stuff (bs : List α) : List α := bs.flatMap m.stuffed

/-- A frame with an end mark on either side. -/
def wrap (bs : List α) : List α := m.fin :: (m.stuff bs ++ [m.fin])

def wraps (fs : List (List α)) : List α := (fs.map m.wrap).flatten

/-- From what is sent comes at most one frame up to the first end mark, and then these. -/
def Resynchronises (deliver : List α → List (List α)) (sent : List α) (fs : List (List α)) :
    Prop :=
  ∃ stale, stale.length ≤ 1 ∧ deliver (sent.take (sent.idxOf m.fin + 1)) = stale ∧
    deliver sent = stale ++ fs

end Marks

namespace Receiver

theorem toList_bind {β : Type} (out : Option α) (accept : α → Option β) :
    (out.bind accept).toList = out.toList.filterMap accept := by
  cases out with
  | none => rfl
  | some a => cases h : accept a <;> simp [h]

variable {m} (r : Receiver m) (s : Partial α)

/-- An end mark here ends the frame. -/
def Ends : Prop := r.closes = true ∨ s.escaped = false

instance : Decidable (r.Ends s) := inferInstanceAs (Decidable (_ ∨ _))

theorem start_ends : r.Ends .start := Or.inr rfl

variable [DecidableEq α]

/-- One letter; a frame that ends is given out. -/
def step (b : α) : Partial α × Option (List α) :=
  if b = m.esc then (⟨s.contents, true⟩, none)
  else if b = m.fin ∧ r.Ends s then (.start, some s.contents)
  else (⟨s.contents ++ [if s.escaped then r.meaning b else b], false⟩, none)

def after (bs : List α) : Partial α := bs.foldl (fun s b => (r.step s b).1) s

/-- The frames that end in a list of letters, also the empty ones. -/
def frames : Partial α → List α → List (List α)
  | _, [] => []
  | s, b :: bs => (r.step s b).2.toList ++ frames (r.step s b).1 bs

/-- What a list of letters without an end mark stands for. -/
def unstuff : Bool → List α → List α
  | _, [] => []
  | escaped, b :: bs =>
    if b = m.esc then unstuff true bs
    else (if escaped then r.meaning b else b) :: unstuff false bs

theorem step_esc : r.step s m.esc = (⟨s.contents, true⟩, none) := if_pos rfl

theorem step_fin (h : r.Ends s) : r.step s m.fin = (.start, some s.contents) := by
  rw [step, if_neg m.fin_ne_esc, if_pos ⟨rfl, h⟩]

theorem step_letter {b : α} (hesc : b ≠ m.esc) (hfin : b ≠ m.fin) :
    r.step s b = (⟨s.contents ++ [if s.escaped then r.meaning b else b], false⟩, none) := by
  rw [step, if_neg hesc, if_neg fun h => hfin h.1]

/-- Where no letter but an escape mark is a mark. -/
theorem step_open {b : α} (hesc : b ≠ m.esc) (h : ¬ r.Ends s) :
    r.step s b = (⟨s.contents ++ [r.meaning b], false⟩, none) := by
  have hescaped : s.escaped = true := by
    rw [Ends, not_or, Bool.not_eq_false] at h
    exact h.2
  rw [step, if_neg hesc, if_neg fun hb => h hb.2, if_pos hescaped]

@[simp] theorem after_nil : r.after s [] = s := rfl

@[simp] theorem after_cons (b : α) (bs : List α) :
    r.after s (b :: bs) = r.after (r.step s b).1 bs := rfl

theorem after_append (bs cs : List α) : r.after s (bs ++ cs) = r.after (r.after s bs) cs :=
  List.foldl_append

theorem frames_append (bs cs : List α) :
    r.frames s (bs ++ cs) = r.frames s bs ++ r.frames (r.after s bs) cs := by
  induction bs generalizing s with
  | nil => rfl
  | cons b bs ih => simp only [List.cons_append, frames, after_cons, ih, List.append_assoc]

/-- Only an escape mark leaves the receiver escaped. -/
theorem step_escaped (b : α) : (r.step s b).1.escaped = decide (b = m.esc) := by
  by_cases hesc : b = m.esc
  · rw [step, if_pos hesc, decide_eq_true hesc]
  · rw [step, if_neg hesc, decide_eq_false hesc]
    split_ifs <;> rfl

theorem after_escaped (bs : List α) :
    (r.after .start bs).escaped = true ↔ bs.getLast? = some m.esc := by
  rcases List.eq_nil_or_concat bs with rfl | ⟨init, b, rfl⟩
  · simp [Partial.start]
  · rw [List.concat_eq_append, after_append, after_cons, after_nil, step_escaped]
    simp

/-- Without an end mark letters are only collected. -/
theorem open_run {bs : List α} (h : m.fin ∉ bs) :
    r.frames s bs = [] ∧ (r.after s bs).contents = s.contents ++ r.unstuff s.escaped bs := by
  induction bs generalizing s with
  | nil => simp [frames, unstuff]
  | cons b bs ih =>
    rw [List.mem_cons, not_or] at h
    by_cases hesc : b = m.esc
    · subst hesc
      rw [frames, after_cons, step_esc, unstuff, if_pos rfl]
      exact ih ⟨s.contents, true⟩ h.2
    · rw [frames, after_cons, step_letter r s hesc fun hb => h.1 hb.symm, unstuff, if_neg hesc]
      have hrest := ih ⟨s.contents ++ [if s.escaped then r.meaning b else b], false⟩ h.2
      rwa [List.append_assoc] at hrest

theorem step_pair {b x : α} (hesc : x ≠ m.esc) (hfin : x ≠ m.fin) (hx : r.meaning x = b) :
    r.frames s [m.esc, x] = [] ∧ r.after s [m.esc, x] = ⟨s.contents ++ [b], false⟩ := by
  have hone : r.step ⟨s.contents, true⟩ x = (⟨s.contents ++ [b], false⟩, none) := by
    rw [step_letter r _ hesc hfin, if_pos rfl, hx]
  simp only [frames, after_cons, after_nil, step_esc, hone, Option.toList_none, List.append_nil,
    and_self]

theorem run_stuffed (hs : s.escaped = false) (b : α) :
    r.frames s (m.stuffed b) = [] ∧ r.after s (m.stuffed b) = ⟨s.contents ++ [b], false⟩ := by
  unfold Marks.stuffed
  split_ifs with hfin hesc
  · rw [hfin]
    exact r.step_pair s m.escFin_ne.2 m.escFin_ne.1 r.meaning_escFin
  · rw [hesc]
    exact r.step_pair s m.escEsc_ne.2 m.escEsc_ne.1 r.meaning_escEsc
  · have hone : r.step s b = (⟨s.contents ++ [b], false⟩, none) := by
      rw [step_letter r s hesc hfin, hs]
      rfl
    simp only [frames, after_cons, after_nil, hone, Option.toList_none, List.append_nil, and_self]

/-- Stuffing is undone. -/
theorem run_stuff (hs : s.escaped = false) (bs : List α) :
    r.frames s (m.stuff bs) = [] ∧ r.after s (m.stuff bs) = ⟨s.contents ++ bs, false⟩ := by
  induction bs generalizing s with
  | nil =>
    refine ⟨rfl, ?_⟩
    rw [List.append_nil, ← hs]
    rfl
  | cons b bs ih =>
    obtain ⟨hframes, hafter⟩ := r.run_stuffed s hs b
    obtain ⟨hframes', hafter'⟩ := ih ⟨s.contents ++ [b], false⟩ rfl
    rw [Marks.stuff, List.flatMap_cons, frames_append, after_append, hframes, hafter]
    refine ⟨hframes', hafter'.trans ?_⟩
    rw [List.append_assoc]
    rfl

/-- The first end mark of a wrapped frame ends what came before. -/
theorem run_wrap (h : r.Ends s) (bs : List α) :
    r.frames s (m.wrap bs) = [s.contents, bs] ∧ r.after s (m.wrap bs) = .start := by
  obtain ⟨hframes, hafter⟩ := r.run_stuff .start rfl bs
  have hend := r.step_fin (⟨bs, false⟩ : Partial α) (Or.inr rfl)
  rw [Marks.wrap, frames, after_cons, step_fin r s h, frames_append, after_append, hframes, hafter]
  change _ ∧ (r.step (⟨bs, false⟩ : Partial α) m.fin).1 = .start
  refine ⟨?_, by rw [hend]⟩
  change [s.contents] ++ ([] ++ ((r.step (⟨bs, false⟩ : Partial α) m.fin).2.toList ++ [])) = _
  rw [hend]
  rfl

/-- What a receiver that skips the empty frame makes of frames wrapped one after the other. -/
theorem run_wraps {accept : List α → Option (List α)} (hnil : accept [] = none)
    (encode : List α → List α) {fs : List (List α)}
    (hfs : ∀ f ∈ fs, accept (encode f) = some f) :
    (r.frames .start (m.wraps (fs.map encode))).filterMap accept = fs := by
  induction fs with
  | nil => rfl
  | cons f fs ih =>
    rw [List.forall_mem_cons] at hfs
    obtain ⟨hframes, hafter⟩ := r.run_wrap .start r.start_ends (encode f)
    rw [List.map_cons, Marks.wraps, List.map_cons, List.flatten_cons, frames_append, hframes,
      hafter, List.filterMap_append]
    change _ ++ (r.frames .start (m.wraps (fs.map encode))).filterMap accept = _
    rw [ih hfs.2]
    change ([[], encode f] : List (List α)).filterMap accept ++ fs = _
    rw [List.filterMap_cons_none hnil, List.filterMap_cons_some hfs.1]
    rfl

/-- Whatever came before, as long as an end mark ends it. -/
theorem resynchronises (h : r.Ends s) {accept : List α → Option (List α)}
    (hnil : accept [] = none) (encode : List α → List α) {fs : List (List α)}
    (hfs : ∀ f ∈ fs, accept (encode f) = some f) :
    m.Resynchronises (fun bs => (r.frames s bs).filterMap accept) (m.wraps (fs.map encode))
      fs := by
  cases fs with
  | nil => exact ⟨[], Nat.zero_le 1, rfl, rfl⟩
  | cons f fs =>
    have hall := r.run_wraps hnil encode hfs
    rw [List.forall_mem_cons] at hfs
    obtain ⟨hframes, hafter⟩ := r.run_wrap s h (encode f)
    obtain ⟨hframes', hafter'⟩ := r.run_wrap .start r.start_ends (encode f)
    have hfirst : (m.wraps ((f :: fs).map encode)).take 1 = [m.fin] := rfl
    refine ⟨(accept s.contents).toList, ?_, ?_, ?_⟩
    · cases accept s.contents <;> simp
    · rw [show (m.wraps ((f :: fs).map encode)).idxOf m.fin = 0 from List.idxOf_cons_self, hfirst]
      simp only [frames, step_fin r s h, Option.toList_some, List.append_nil]
      cases haccept : accept s.contents <;> simp [haccept]
    · have hsent : m.wraps ((f :: fs).map encode) = m.wrap (encode f) ++ m.wraps (fs.map encode) :=
        rfl
      rw [hsent] at hall ⊢
      dsimp only
      rw [frames_append, hframes', hafter', List.filterMap_append] at hall
      change ([[], encode f] : List (List α)).filterMap accept ++ _ = _ at hall
      rw [List.filterMap_cons_none hnil] at hall
      rw [frames_append, hframes, hafter, List.filterMap_append, List.filterMap_cons]
      cases haccept : accept s.contents with
      | none => exact hall
      | some stale => exact congrArg (List.cons stale) hall

end Receiver

end Aloof.Framework
