import Aloof.Framework.Interrupted
import Aloof.Ruby.SlipProof

namespace Aloof.Ruby.Slip

open Framework
open CriticalSection (State Action)

variable (checksum : List UInt8 → UInt16) (transport : Transport)

/-- The bytes of each @port.write in tx. -/
def writes (buffer : List UInt8) : List (List UInt8) :=
  [endChar] :: ((protect checksum transport buffer).map txByte ++ [[endChar]])

/-- The threads of a process; port gets what they write. with_mutex is the lock, and it is unlocked
however the block ends. -/
def threads (ι : Type) [DecidableEq ι] :
    System (State (writes checksum transport) ι) (Action ι (List UInt8)) :=
  CriticalSection.system

theorem flatten_writes (buffer : List UInt8) :
    (writes checksum transport buffer).flatten = tx checksum transport buffer :=
  slipMarks.flatten_pieces (protect checksum transport buffer)

/-- What was written of a message and its checksum. -/
def part (job : Job (writes checksum transport)) : List UInt8 :=
  (protect checksum transport job.what).take (job.written.length - 1)

theorem part_done {job : Job (writes checksum transport)} (h : job.left = []) :
    part checksum transport job = protect checksum transport job.what :=
  @Job.part_done _ _ slipMarks _ (protect checksum transport) job h

theorem received_nil : received checksum transport [] = none := by
  cases transport with
  | slip => rfl
  | slipCrc16 =>
    by_cases h : checksum [] = 0
    · exact if_pos h
    · exact if_neg h

section Runs

variable {ι : Type} [DecidableEq ι] {s : State (writes checksum transport) ι}

/-- One thread at a time is in the block of with_mutex, and a reader finds the messages in the
order of the lock, of each as much as was written. -/
theorem threads_read (h : (threads checksum transport ι).Reachable s) :
    (∀ i i' job job', s.place i = .inside job → s.place i' = .inside job' → i = i') ∧
    (read checksum transport .fresh s.log).1.state = .rx ∧
    (read checksum transport .fresh s.log).2 ++
        (received checksum transport (read checksum transport .fresh s.log).1.buffer).toList =
      (s.jobs.map (part checksum transport)).filterMap (received checksum transport) := by
  have hserial := CriticalSection.serial_invariant.reachable h
  have hline : receiver.Comes (received checksum transport) [] s.log
      (s.jobs.map (part checksum transport)) := by
    rw [hserial.log]
    exact receiver.comes_jobs (protect checksum transport) (received_nil checksum transport)
      s.jobs []
  obtain ⟨hcomes, hescaped⟩ := hline
  obtain ⟨hafter, hframes⟩ := read_frames checksum transport .fresh s.log
  have hfresh : Reader.unfinished .fresh = ⟨[], false⟩ := rfl
  rw [hfresh] at hafter hframes
  refine ⟨?_, ?_, ?_⟩
  · intro i i' job job' hi hi'
    have hlock := hserial.inside i job hi
    exact Option.some.inj (hlock.symm.trans (hserial.inside i' job' hi'))
  · rw [← hafter] at hescaped
    cases hstate : (read checksum transport .fresh s.log).1.state with
    | rx => rfl
    | escape => exact absurd hstate (of_decide_eq_false hescaped)
  · rw [← hafter] at hcomes
    rw [hframes]
    refine hcomes.trans ?_
    rw [List.filterMap_cons_none (received_nil checksum transport)]

/-- Where no call of tx is broken off, the handler gets the messages that were written to the end, of
those that it gets at all. -/
theorem threads_calls (h : System.Path (threads checksum transport ι)
      (fun _ a => ∀ i, a ≠ .abort i) (threads checksum transport ι).init s) :
    (read checksum transport .fresh s.log).2 =
      (s.jobs.filter fun job => job.left.isEmpty).filterMap fun job =>
        received checksum transport (protect checksum transport job.what) := by
  have hserial := CriticalSection.serial_invariant.reachable (h.reachable .nil)
  have hended := CriticalSection.ended_done h
  rw [(read_frames checksum transport .fresh s.log).2, hserial.log]
  exact receiver.unbroken (protect checksum transport) (received_nil checksum transport) hended
    s.current

end Runs

end Aloof.Ruby.Slip
