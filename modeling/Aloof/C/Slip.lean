import Mathlib.Data.List.Basic

namespace Aloof.C

/-- The application's side of put_fn: whether a byte is taken, and the state it leaves. A byte is
not rejected for ever. -/
structure PutFn (τ : Type) where
  call : τ → UInt8 → Bool × τ
  finite : ∀ c, WellFounded fun user' user => call user c = (false, user')

/-- The state that put_fn works on, with the bytes that were taken. -/
structure Line (τ : Type) where
  user : τ
  sent : List UInt8

namespace PutFn

variable {τ : Type} (putFn : PutFn τ) (c : UInt8) (line : Line τ)

/-- put_fn(state, c); a rejected byte is not transmitted. -/
def put : Bool × Line τ :=
  let r := putFn.call line.user c
  (r.1, ⟨r.2, if r.1 then line.sent ++ [c] else line.sent⟩)

theorem rejected (h : ¬ (putFn.put c line).1 = true) :
    putFn.call line.user c = (false, (putFn.put c line).2.user) :=
  Prod.ext (Bool.eq_false_iff.mpr h) rfl

/-- while(!put_fn(state, c)); -/
def putLoop (line : Line τ) : Line τ :=
  let r := putFn.put c line
  if _h : r.1 = true then r.2 else putLoop r.2
termination_by (putFn.finite c).wrap line.user
decreasing_by exact putFn.rejected c line _h

end PutFn

/-- struct aloof_slip; buf points to max bytes. -/
structure Slip (τ : Type) where
  buf : List UInt8
  len : UInt32
  max : UInt32
  escape : Bool
  state : Line τ
  putFn : PutFn τ
  size_eq : buf.length = max.toNat
  len_le : len ≤ max

/-- struct aloof_slip_init_arg. -/
structure SlipInitArg (τ : Type) where
  buf : List UInt8
  max : UInt32
  state : τ
  putFn : PutFn τ
  size_eq : buf.length = max.toNat

namespace Slip

def endChar : UInt8 := 192
def escapeChar : UInt8 := 219
def escapeEndChar : UInt8 := 220
def escapeEscapeChar : UInt8 := 221

variable {τ : Type} (self : Slip τ) (c : UInt8)

def init (arg : SlipInitArg τ) : Slip τ where
  buf := arg.buf
  len := 0
  max := arg.max
  escape := false
  state := ⟨arg.state, []⟩
  putFn := arg.putFn
  size_eq := arg.size_eq
  len_le := UInt32.zero_le

theorem add_one_le {a b : UInt32} (h : a < b) : a + 1 ≤ b := by
  rw [UInt32.lt_iff_toNat_lt] at h
  have hb := b.toNat_lt
  rw [UInt32.le_iff_toNat_le, UInt32.toNat_add, UInt32.toNat_one, Nat.mod_eq_of_lt (by omega)]
  exact h

/-- buf[len] = c; len++; if there is a place left. -/
def store : Slip τ :=
  if h : self.len < self.max then
    { self with
      buf := self.buf.set self.len.toNat c
      len := self.len + 1
      size_eq := by rw [List.length_set, self.size_eq]
      len_le := add_one_le h }
  else self

/-- The byte that follows an escape character; other bytes share the case of ESCAPE_END_CHAR. -/
def unescape (c : UInt8) : UInt8 :=
  if c = escapeEscapeChar then escapeChar else endChar

/-- The frame is what *out and *size describe when true is returned. -/
def decode : Slip τ × Option (List UInt8) :=
  if c = escapeChar then ({ self with escape := true }, none)
  else if c = endChar then
    ({ self with len := 0, escape := false, len_le := UInt32.zero_le },
      if self.len > 0 then some (self.buf.take self.len.toNat) else none)
  else
    let c := if self.escape then unescape c else c
    (store { self with escape := false } c, none)

/-- A caller that feeds bytes as they come. -/
def decodeAll : Slip τ → List UInt8 → Slip τ × List (List UInt8)
  | self, [] => (self, [])
  | self, c :: cs =>
    let r := self.decode c
    let t := decodeAll r.1 cs
    (t.1, r.2.toList ++ t.2)

def putStart : Bool × Slip τ :=
  let r := self.putFn.put endChar self.state
  (r.1, { self with state := r.2 })

/-- while(!self->put_fn(self->state, c)); -/
def putLoop : Slip τ := { self with state := self.putFn.putLoop c self.state }

def put : Bool × Slip τ :=
  if c = endChar then (true, (self.putLoop escapeChar).putLoop escapeEndChar)
  else if c = escapeChar then (true, (self.putLoop escapeChar).putLoop escapeEscapeChar)
  else (true, self.putLoop c)

def putEnd : Bool × Slip τ := self.putStart

/-- put_fn does not reject the END character for ever. -/
theorem putStart_finite : WellFounded fun s' s : Slip τ => s.putStart = (false, s') := by
  have hacc (p : PutFn τ) (user : τ) : ∀ s : Slip τ, s.putFn = p → s.state.user = user →
      Acc (fun s' s : Slip τ => s.putStart = (false, s')) s := by
    induction user using (p.finite endChar).induction with
    | _ user ih =>
      rintro s rfl rfl
      constructor
      intro s' hs'
      obtain ⟨hok, rfl⟩ := Prod.mk.inj hs'
      exact ih _ (s.putFn.rejected endChar s.state (by simp [hok])) _ rfl rfl
  exact ⟨fun s => hacc _ _ s rfl rfl⟩

/-- A caller that repeats aloof_slip_put_start until it returns true. -/
def start (self : Slip τ) : Slip τ :=
  let r := self.putStart
  if _h : r.1 = true then r.2 else start r.2
termination_by putStart_finite.wrap self
decreasing_by exact Prod.ext (Bool.eq_false_iff.mpr _h) rfl

/-- A caller that repeats aloof_slip_put_end until it returns true. -/
def finish (self : Slip τ) : Slip τ :=
  let r := self.putEnd
  if _h : r.1 = true then r.2 else finish r.2
termination_by putStart_finite.wrap self
decreasing_by exact Prod.ext (Bool.eq_false_iff.mpr _h) rfl

def send (payload : List UInt8) : Slip τ :=
  (payload.foldl (fun s c => (s.put c).2) self.start).finish

def sendAll (payloads : List (List UInt8)) : Slip τ := payloads.foldl send self

end Slip

end Aloof.C
