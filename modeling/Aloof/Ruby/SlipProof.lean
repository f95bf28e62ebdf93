import Aloof.Ruby.Slip
import Aloof.Wire.Slip

namespace Aloof.Ruby.Slip

open Framework

/-- What a byte behind an ESCAPE_CHAR is taken for. -/
def unescape (c : UInt8) : UInt8 :=
  if c = escapeEscapeChar then escapeChar else if c = escapeEndChar then endChar else c

/-- The receiver that the reader loop is: an END_CHAR behind an ESCAPE_CHAR is taken for itself. -/
def receiver : Receiver slipMarks := ⟨unescape, false, rfl, rfl⟩

def Reader.unfinished (self : Reader) : Partial UInt8 := ⟨self.buffer, self.state = .escape⟩

variable (checksum : List UInt8 → UInt16) (transport : Transport) (self : Reader) (c : UInt8)

theorem txAll_eq (messages : List (List UInt8)) :
    txAll checksum transport messages =
      slipMarks.wraps (messages.map (protect checksum transport)) := by
  rw [txAll, Marks.wraps, List.map_map]
  rfl

theorem receive_step :
    (receive checksum transport self c).1.unfinished = (receiver.step self.unfinished c).1 ∧
    (receive checksum transport self c).2 =
      (receiver.step self.unfinished c).2.bind (received checksum transport) := by
  obtain ⟨buffer, state⟩ := self
  by_cases hesc : c = escapeChar
  · subst hesc
    rw [show escapeChar = slipMarks.esc from rfl, Receiver.step_esc]
    cases state <;> exact ⟨rfl, rfl⟩
  cases state with
  | rx =>
    by_cases hend : c = endChar
    · subst hend
      rw [show endChar = slipMarks.fin from rfl, Receiver.step_fin _ _ (Or.inr rfl)]
      exact ⟨rfl, rfl⟩
    · rw [Receiver.step_letter _ _ hesc hend]
      simp only [receive, if_neg hesc, if_neg hend]
      exact ⟨rfl, rfl⟩
  | escape =>
    have hopen : ¬ receiver.Ends (Reader.unfinished ⟨buffer, .escape⟩) := by
      rintro (h | h) <;> cases h
    rw [Receiver.step_open _ _ hesc hopen]
    change _ = (⟨buffer ++ [unescape c], false⟩ : Partial UInt8) ∧ _
    rw [unescape]
    simp only [receive, if_neg hesc]
    split_ifs <;> exact ⟨rfl, rfl⟩

theorem read_frames (bs : List UInt8) :
    (read checksum transport self bs).1.unfinished = receiver.after self.unfinished bs ∧
    (read checksum transport self bs).2 =
      (receiver.frames self.unfinished bs).filterMap (received checksum transport) := by
  induction bs generalizing self with
  | nil => exact ⟨rfl, rfl⟩
  | cons c bs ih =>
    obtain ⟨hstate, hcall⟩ := receive_step checksum transport self c
    obtain ⟨hstate', hcalls⟩ := ih (receive checksum transport self c).1
    rw [hstate] at hstate' hcalls
    refine ⟨hstate', ?_⟩
    rw [read, hcalls, hcall, Receiver.frames, List.filterMap_append, Receiver.toList_bind]

/-- Only an ESCAPE_CHAR leaves the reader in the middle of an escape. -/
theorem read_state (noise : List UInt8) :
    (read checksum transport .fresh noise).1.state = .escape ↔
      noise.getLast? = some escapeChar := by
  have hescaped := receiver.after_escaped noise
  rw [show Partial.start = Reader.unfinished .fresh from rfl,
    ← (read_frames checksum transport .fresh noise).1] at hescaped
  exact decide_eq_true_iff.symm.trans hescaped

/-- After noise, END_CHAR is the end of whatever was there, and messages arrive. -/
structure Resynchronises (noise : List UInt8) (messages : List (List UInt8)) : Prop where
  closes : (receive checksum .slip (read checksum .slip .fresh noise).1 endChar).1 = .fresh
  calls : slipMarks.Resynchronises
    (fun bs => (read checksum .slip (read checksum .slip .fresh noise).1 bs).2)
    (txAll checksum .slip messages) messages

/-- An END_CHAR behind a dangling ESCAPE_CHAR is a byte of the frame. -/
theorem reader_resynchronises (noise : List UInt8) (messages : List (List UInt8))
    (hmessages : ∀ m ∈ messages, m ≠ []) :
    Resynchronises checksum noise messages ↔ noise.getLast? ≠ some escapeChar := by
  have hstate := read_state checksum .slip noise
  constructor
  · intro h hlast
    have hclosed := h.closes
    rw [receive, hstate.mpr hlast] at hclosed
    have hbuffer : (read checksum .slip .fresh noise).1.buffer ++ [endChar] = [] :=
      congrArg Reader.buffer hclosed
    exact List.append_ne_nil_of_right_ne_nil _ (List.cons_ne_nil _ _) hbuffer
  · intro hlast
    have hrx : (read checksum .slip .fresh noise).1.state = .rx := by
      cases h : (read checksum .slip .fresh noise).1.state with
      | rx => rfl
      | escape => exact absurd (hstate.mp h) hlast
    constructor
    · rw [receive, hrx]
      rfl
    · have hends : receiver.Ends (read checksum .slip .fresh noise).1.unfinished := by
        refine Or.inr (decide_eq_false ?_)
        rw [hrx]
        exact ReaderState.noConfusion
      have hwhole : ∀ m ∈ messages, received checksum .slip (protect checksum .slip m) = some m :=
        fun m hm => if_pos (List.length_pos_iff.mpr (hmessages m hm))
      have hsync := receiver.resynchronises _ hends
        (show received checksum .slip [] = none from rfl) (protect checksum .slip) hwhole
      rw [← txAll_eq] at hsync
      convert hsync using 2
      exact (read_frames checksum .slip _ _).2

/-- Two messages with both marks in them, after a byte and a broken escape. -/
theorem reader_resynchronises_noise :
    Resynchronises (fun _ => 0) [65, 219, 1] [[192, 219], [1, 2]] :=
  (reader_resynchronises (fun _ => 0) [65, 219, 1] [[192, 219], [1, 2]] (by decide)).mpr (by decide)

/-- The message comes glued to what was there. -/
theorem reader_resynchronises_dangling :
    (read (fun _ => 0) .slip (read (fun _ => 0) .slip .fresh [65, 219]).1
      (txAll (fun _ => 0) .slip [[1, 2]])).2 = [[65, 192, 1, 2]] ∧
    ¬ Resynchronises (fun _ => 0) [65, 219] [[1, 2]] := by
  have hcalls : (read (fun _ => 0) .slip (read (fun _ => 0) .slip .fresh [65, 219]).1
      (txAll (fun _ => 0) .slip [[1, 2]])).2 = [[65, 192, 1, 2]] := by decide
  refine ⟨hcalls, fun h => ?_⟩
  obtain ⟨stale, hstale, -, hsync⟩ := h.calls
  have hglued := hcalls.symm.trans hsync
  rcases stale with _ | ⟨a, _ | ⟨b, stale⟩⟩
  · exact absurd hglued (by decide)
  · exact absurd (List.cons.inj hglued).2 (by decide)
  · simp at hstale

end Aloof.Ruby.Slip
