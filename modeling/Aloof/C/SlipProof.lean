import Aloof.C.Slip
import Aloof.Wire.Slip

namespace Aloof.C

open Framework

namespace PutFn

variable {τ : Type} (putFn : PutFn τ) (c : UInt8) (line : Line τ)

theorem put_sent (h : (putFn.put c line).1 = true) :
    (putFn.put c line).2.sent = line.sent ++ [c] := if_pos h

theorem put_kept (h : ¬ (putFn.put c line).1 = true) :
    (putFn.put c line).2.sent = line.sent := if_neg h

theorem putLoop_sent : (putFn.putLoop c line).sent = line.sent ++ [c] := by
  fun_induction putLoop putFn c line with
  | case1 line r hok => exact putFn.put_sent c line hok
  | case2 line r hrejected ih => rw [ih, putFn.put_kept c line hrejected]

end PutFn

namespace Slip

/-- The receiver that decode is. -/
def receiver : Receiver slipMarks := ⟨unescape, true, rfl, rfl⟩

variable {τ : Type} (self : Slip τ) (c : UInt8)

section Sender

theorem start_sent : self.start.state.sent = self.state.sent ++ [endChar] := by
  fun_induction start self with
  | case1 self r hok => exact self.putFn.put_sent endChar self.state hok
  | case2 self r hrejected ih =>
    rw [ih]
    exact congrArg (· ++ [endChar]) (self.putFn.put_kept endChar self.state hrejected)

theorem finish_sent : self.finish.state.sent = self.state.sent ++ [endChar] := by
  fun_induction finish self with
  | case1 self r hok => exact self.putFn.put_sent endChar self.state hok
  | case2 self r hrejected ih =>
    rw [ih]
    exact congrArg (· ++ [endChar]) (self.putFn.put_kept endChar self.state hrejected)

theorem putLoop_sent : (self.putLoop c).state.sent = self.state.sent ++ [c] :=
  self.putFn.putLoop_sent c self.state

theorem put_sent : (self.put c).2.state.sent = self.state.sent ++ slipMarks.stuffed c := by
  rw [Marks.stuffed]
  by_cases hend : c = endChar
  · rw [put, if_pos hend, if_pos (show c = slipMarks.fin from hend), putLoop_sent, putLoop_sent,
      List.append_assoc]
    rfl
  rw [put, if_neg hend, if_neg (show ¬ c = slipMarks.fin from hend)]
  by_cases hesc : c = escapeChar
  · rw [if_pos hesc, if_pos (show c = slipMarks.esc from hesc), putLoop_sent, putLoop_sent,
      List.append_assoc]
    rfl
  · rw [if_neg hesc, if_neg (show ¬ c = slipMarks.esc from hesc)]
    exact self.putLoop_sent c

theorem puts_sent (payload : List UInt8) :
    (payload.foldl (fun s c => (s.put c).2) self).state.sent =
      self.state.sent ++ slipMarks.stuff payload := by
  induction payload generalizing self with
  | nil => exact (List.append_nil _).symm
  | cons c payload ih =>
    rw [List.foldl_cons, ih, put_sent, List.append_assoc]
    rfl

theorem send_sent (payload : List UInt8) :
    (self.send payload).state.sent = self.state.sent ++ slipMarks.wrap payload := by
  rw [send, finish_sent, puts_sent, start_sent, List.append_assoc, List.append_assoc]
  rfl

theorem sendAll_sent (payloads : List (List UInt8)) :
    (self.sendAll payloads).state.sent = self.state.sent ++ slipMarks.wraps payloads := by
  induction payloads generalizing self with
  | nil => exact (List.append_nil _).symm
  | cons payload payloads ih =>
    change ((self.send payload).sendAll payloads).state.sent = _
    rw [ih, send_sent, List.append_assoc]
    rfl

end Sender

section Receiver

/-- The decoder keeps of an unfinished frame what its buffer can hold. -/
structure Represents (d : Slip τ) (s : Partial UInt8) : Prop where
  contents : d.buf.take d.len.toNat = s.contents.take d.max.toNat
  escape : d.escape = s.escaped

/-- The frame that comes out; nothing does for an empty one. -/
def kept (max : Nat) (contents : List UInt8) : Option (List UInt8) :=
  let frame := contents.take max
  if frame = [] then none else some frame

theorem take_take_append {α : Type} (n : Nat) (xs ys : List α) :
    (xs.take n ++ ys).take n = (xs ++ ys).take n := by
  have hlength : n - (xs.take n).length = n - xs.length := by
    rw [List.length_take]
    omega
  rw [List.take_append, List.take_append, List.take_take, Nat.min_self, hlength]

theorem init_represents (arg : SlipInitArg τ) : (init arg).Represents .start :=
  ⟨by simp [init, Partial.start], rfl⟩

@[simp] theorem store_max : (self.store c).max = self.max := by
  unfold store
  split_ifs <;> rfl

@[simp] theorem store_escape : (self.store c).escape = self.escape := by
  unfold store
  split_ifs <;> rfl

theorem decode_escape : self.decode escapeChar = ({ self with escape := true }, none) := if_pos rfl

theorem decode_end : self.decode endChar =
    ({ self with len := 0, escape := false, len_le := UInt32.zero_le },
      if self.len > 0 then some (self.buf.take self.len.toNat) else none) := by
  rw [decode, if_neg (by decide), if_pos rfl]

theorem decode_other (hesc : c ≠ escapeChar) (hend : c ≠ endChar) : self.decode c =
    (store { self with escape := false } (if self.escape then unescape c else c), none) := by
  rw [decode, if_neg hesc, if_neg hend]

@[simp] theorem decode_max : (self.decode c).1.max = self.max := by
  by_cases hesc : c = escapeChar
  · rw [hesc, decode_escape]
  by_cases hend : c = endChar
  · rw [hend, decode_end]
  · rw [decode_other self c hesc hend, store_max]

@[simp] theorem decodeAll_max (bs : List UInt8) : (self.decodeAll bs).1.max = self.max := by
  induction bs generalizing self with
  | nil => rfl
  | cons b bs ih => exact (ih (self.decode b).1).trans (self.decode_max b)

theorem length_kept : (self.buf.take self.len.toNat).length = self.len.toNat := by
  have hle := UInt32.le_iff_toNat_le.mp self.len_le
  rw [List.length_take, self.size_eq]
  omega

/-- A byte that finds no place is lost. -/
theorem store_kept : (self.store c).buf.take (self.store c).len.toNat =
    (self.buf.take self.len.toNat ++ [c]).take self.max.toNat := by
  have hlength := self.length_kept
  unfold store
  split_ifs with h
  · have hlt := UInt32.lt_iff_toNat_lt.mp h
    have hmax := self.max.toNat_lt
    have hnext : (self.len + 1).toNat = self.len.toNat + 1 := by
      rw [UInt32.toNat_add, UInt32.toNat_one, Nat.mod_eq_of_lt (by omega)]
    have hin : self.len.toNat < (self.buf.set self.len.toNat c).length := by
      rw [List.length_set, self.size_eq]
      exact hlt
    have hfit : (self.buf.take self.len.toNat ++ [c]).length ≤ self.max.toNat := by
      rw [List.length_append, hlength]
      exact hlt
    rw [List.take_of_length_le hfit]
    change (self.buf.set self.len.toNat c).take (self.len + 1).toNat = _
    rw [hnext, List.take_succ_eq_append_getElem hin, List.getElem_set_self,
      List.take_set_of_le (Nat.le_refl _)]
  · have hge : self.max.toNat ≤ self.len.toNat := by
      rw [UInt32.lt_iff_toNat_lt] at h
      omega
    have hle := UInt32.le_iff_toNat_le.mp self.len_le
    rw [List.take_append_of_le_length (by omega), List.take_take, Nat.min_eq_left hge,
      Nat.le_antisymm hle hge]

/-- One byte. -/
theorem decode_represents {s : Partial UInt8} (h : self.Represents s) :
    (self.decode c).1.Represents (receiver.step s c).1 ∧
    (self.decode c).2 = (receiver.step s c).2.bind (kept self.max.toNat) := by
  by_cases hesc : c = escapeChar
  · rw [hesc, decode_escape, show escapeChar = slipMarks.esc from rfl, Receiver.step_esc]
    exact ⟨⟨h.contents, rfl⟩, rfl⟩
  by_cases hend : c = endChar
  · have hempty : s.contents.take self.max.toNat = [] ↔ ¬ self.len > 0 := by
      rw [← h.contents, ← List.length_eq_zero_iff, length_kept, gt_iff_lt,
        UInt32.lt_iff_toNat_lt]
      exact Nat.pos_iff_ne_zero.not_left.symm
    rw [hend, decode_end, show endChar = slipMarks.fin from rfl,
      Receiver.step_fin receiver s (Or.inl rfl)]
    refine ⟨⟨by simp [Partial.start], rfl⟩, ?_⟩
    rw [Option.bind_some, kept]
    dsimp only
    by_cases hlen : self.len > 0
    · rw [if_pos hlen, if_neg fun hnil => hempty.mp hnil hlen, h.contents]
    · rw [if_neg hlen, if_pos (hempty.mpr hlen)]
  · rw [decode_other self c hesc hend, Receiver.step_letter receiver s hesc hend]
    refine ⟨⟨?_, store_escape _ _⟩, rfl⟩
    rw [store_kept, store_max]
    dsimp only
    rw [h.contents, h.escape]
    exact take_take_append _ _ _

theorem decodeAll_represents {s : Partial UInt8} (h : self.Represents s) (bs : List UInt8) :
    (self.decodeAll bs).1.Represents (receiver.after s bs) ∧
    (self.decodeAll bs).2 = (receiver.frames s bs).filterMap (kept self.max.toNat) := by
  induction bs generalizing self s with
  | nil => exact ⟨h, rfl⟩
  | cons b bs ih =>
    obtain ⟨hrep, hout⟩ := self.decode_represents b h
    obtain ⟨hrep', hout'⟩ := ih (self.decode b).1 hrep
    rw [decode_max] at hout'
    refine ⟨hrep', ?_⟩
    rw [decodeAll, hout', hout, Receiver.frames, List.filterMap_append, Receiver.toList_bind]

end Receiver

end Slip

end Aloof.C
