import Aloof.Agreement.Framing
import Aloof.Ruby.SlipThreads

namespace Aloof.Agreement

open Framework C
open Framework.CriticalSection (State Action)
open Ruby.Slip (Transport protect writes threads part)

variable {checksum : List UInt8 → UInt16} {transport : Transport} {ι : Type} [DecidableEq ι]

theorem received_whole
    (hchecksum : transport = .slipCrc16 → ∀ bs, checksum bs = Crc.ccitt16Block bs)
    (m : List UInt8) : Ruby.Slip.received checksum transport (protect checksum transport m) =
      Receiver.nonempty m := by
  cases transport with
  | slip => exact received_eq checksum m
  | slipCrc16 =>
    by_cases hm : m = []
    · obtain rfl : checksum = Crc.ccitt16Block := funext (hchecksum rfl)
      subst hm
      decide
    · rw [received_protect checksum (hchecksum rfl) hm, Receiver.nonempty, if_neg hm]

/-- Threads take turns with whole calls of tx: at the other end come the messages in the order of
the lock, and of a message that was broken off at most a first part. -/
theorem threads_take_turns
    (hchecksum : transport = .slipCrc16 → ∀ bs, checksum bs = Crc.ccitt16Block bs)
    {s : State (writes checksum transport) ι} (h : (threads checksum transport ι).Reachable s) :
    let r := Ruby.Slip.read checksum transport .fresh s.log
    (∀ i i' job job', s.place i = .inside job → s.place i' = .inside job' → i = i') ∧
    r.1.state = .rx ∧
    r.2 ++ (Ruby.Slip.received checksum transport r.1.buffer).toList =
      (s.jobs.map (part checksum transport)).filterMap (Ruby.Slip.received checksum transport) ∧
    ∀ job ∈ s.jobs, job.left = [] →
      Ruby.Slip.received checksum transport (part checksum transport job) =
        Receiver.nonempty job.what := by
  obtain ⟨halone, hstate, hcalls⟩ := Ruby.Slip.threads_read checksum transport h
  refine ⟨halone, hstate, hcalls, ?_⟩
  intro job _ hleft
  rw [Ruby.Slip.part_done checksum transport hleft, received_whole hchecksum]

/-- A message that is broken off behind its first byte, which comes as a frame by itself. -/
theorem threads_take_turns_abort : ∃ s, (threads Crc.ccitt16Block .slip Bool).Reachable s ∧
    (Ruby.Slip.read Crc.ccitt16Block .slip .fresh s.log).2 = [[192], [1]] := by
  let as : List (Action Bool (List UInt8)) :=
    [.call false [192, 7], .call true [1], .enter false, .write false, .write false,
      .abort false, .enter true, .write true, .write true, .write true]
  have hrun : (as.foldlM (threads Crc.ccitt16Block .slip Bool).step
      (threads Crc.ccitt16Block .slip Bool).init).isSome := by rfl
  have hr : (threads Crc.ccitt16Block .slip Bool).Reachable (Option.get _ hrun) :=
    .of_foldlM (fun _ _ _ => trivial) (Option.some_get hrun).symm
  obtain ⟨-, -, hcalls, -⟩ := threads_take_turns (fun _ _ => rfl) hr
  refine ⟨_, hr, ?_⟩
  exact (List.append_nil _).symm.trans hcalls

/-- Without an exception in tx every call of the handler is a message that was written to the end. -/
theorem threads_heard
    (hchecksum : transport = .slipCrc16 → ∀ bs, checksum bs = Crc.ccitt16Block bs)
    {s : State (writes checksum transport) ι}
    (h : System.Path (threads checksum transport ι) (fun _ a => ∀ i, a ≠ .abort i)
      (threads checksum transport ι).init s) :
    (Ruby.Slip.read checksum transport .fresh s.log).2 =
      ((s.jobs.filter fun job => job.left.isEmpty).map Job.what).filterMap Receiver.nonempty := by
  rw [Ruby.Slip.threads_calls checksum transport h, List.filterMap_map]
  exact List.filterMap_congr fun job _ => received_whole hchecksum job.what

/-- A thread that has done, and one that has begun. -/
theorem threads_heard_two : ∃ s, (threads Crc.ccitt16Block .slipCrc16 Bool).Reachable s ∧
    s.jobs.map Job.what = [[192], [1, 2]] ∧
    (Ruby.Slip.read Crc.ccitt16Block .slipCrc16 .fresh s.log).2 = [[192]] := by
  let as : List (Action Bool (List UInt8)) :=
    [.call false [192], .call true [1, 2], .enter false, .write false, .write false, .write false,
      .write false, .write false, .leave false, .enter true, .write true, .write true]
  have hrun : (as.foldlM (threads Crc.ccitt16Block .slipCrc16 Bool).step
      (threads Crc.ccitt16Block .slipCrc16 Bool).init).isSome := by rfl
  have hpath : System.Path (threads Crc.ccitt16Block .slipCrc16 Bool)
      (fun _ a => ∀ i, a ≠ .abort i) (threads Crc.ccitt16Block .slipCrc16 Bool).init
      (Option.get _ hrun) :=
    .of_foldlM (by simp [as]) (Option.some_get hrun).symm
  exact ⟨_, hpath.reachable .nil, rfl, threads_heard (fun _ _ => rfl) hpath⟩

/-- The decoder at the other end hands out the same messages, as far as its buffer holds them; it
leaves the checksum of :slip_crc16 where it is. -/
theorem threads_decoded {σ : Type} (arg : SlipInitArg σ) {s : State (writes checksum transport) ι}
    (h : System.Path (threads checksum transport ι) (fun _ a => ∀ i, a ≠ .abort i)
      (threads checksum transport ι).init s) :
    ((Slip.init arg).decodeAll s.log).2 =
      ((s.jobs.filter fun job => job.left.isEmpty).map fun job =>
        protect checksum transport job.what).filterMap (Slip.kept arg.max.toNat) := by
  have hserial := CriticalSection.serial_invariant.reachable (h.reachable .nil)
  have hframes := ((Slip.init arg).decodeAll_represents (Slip.init_represents arg) s.log).2
  have hnil : Slip.kept arg.max.toNat [] = none := by simp [Slip.kept]
  rw [hframes, hserial.log, List.filterMap_map]
  exact Slip.receiver.unbroken (protect checksum transport) hnil (CriticalSection.ended_done h)
    s.current

theorem threads_decoded_two : ∃ s, (threads Crc.ccitt16Block .slip Bool).Reachable s ∧
    s.jobs.map Job.what = [[192], [1, 2]] ∧
    ((Slip.init sixteenBytes).decodeAll s.log).2 = [[192]] := by
  let as : List (Action Bool (List UInt8)) :=
    [.call false [192], .call true [1, 2], .enter false, .write false, .write false, .write false,
      .leave false, .enter true, .write true]
  have hrun : (as.foldlM (threads Crc.ccitt16Block .slip Bool).step
      (threads Crc.ccitt16Block .slip Bool).init).isSome := by rfl
  have hpath : System.Path (threads Crc.ccitt16Block .slip Bool)
      (fun _ a => ∀ i, a ≠ .abort i) (threads Crc.ccitt16Block .slip Bool).init
      (Option.get _ hrun) :=
    .of_foldlM (by simp [as]) (Option.some_get hrun).symm
  exact ⟨_, hpath.reachable .nil, rfl, threads_decoded sixteenBytes hpath⟩

end Aloof.Agreement
