import Aloof.Ruby.ClientCalls
import Aloof.Ruby.TerminalType

namespace Aloof.Ruby

namespace StringToI

def hexValue? (c : Char) : Option Nat :=
  if c.isDigit then some (c.toNat - '0'.toNat)
  else if 'a' ≤ c.toLower ∧ c.toLower ≤ 'f' then some (10 + (c.toLower.toNat - 'a'.toNat))
  else none

def hexDigits (acc : Nat) : List Char → Nat
  | [] => acc
  | '_' :: c :: rest => if (hexValue? c).isSome then hexDigits acc (c :: rest) else acc
  | c :: rest =>
    match hexValue? c with
    | some n => hexDigits (16 * acc + n) rest
    | none => acc

def afterHexPrefix : List Char → List Char
  | '0' :: 'x' :: rest | '0' :: 'X' :: rest => rest
  | text => text

def unsignedHex (text : List Char) : Nat :=
  match afterHexPrefix text with
  | [] => 0
  | c :: rest => if (hexValue? c).isSome then hexDigits 0 (c :: rest) else 0

/-- String#to_i(16). -/
def toI16 (text : List Char) : Int :=
  match text.dropWhile isSpace with
  | '+' :: rest => unsignedHex rest
  | '-' :: rest => -unsignedHex rest
  | rest => unsignedHex rest

end StringToI

namespace Client

def typeName : DataType → List Char
  | .nil => ['n', 'i', 'l']
  | .u8 => ['u', '8']
  | .u16 => ['u', '1', '6']
  | .u32 => ['u', '3', '2']
  | .u64 => ['u', '6', '4']
  | .i8 => ['i', '8']
  | .i16 => ['i', '1', '6']
  | .i32 => ['i', '3', '2']
  | .i64 => ['i', '6', '4']
  | .bool => ['b', 'o', 'o', 'l']
  | .float => ['f', 'l', 'o', 'a', 't']
  | .double => ['d', 'o', 'u', 'b', 'l', 'e']
  | .string => ['s', 't', 'r', 'i', 'n', 'g']
  | .blob => ['b', 'l', 'o', 'b']

/-- What JSON.parse returns, as far as from_json looks into it. -/
inductive Field where
  | string (text : List Char)
  | integer (n : Int)
  | other

inductive Entry where
  | hash (fields : List (String × Field))
  | other

inductive Json where
  | hash (entries : List (String × Entry))
  | other

namespace ObjectTable

/-- An oid is a natural number here: a negative one, which from_json takes, is left out. -/
def entryOid (fields : List (String × Field)) : Option Nat :=
  match fields.lookup "oid" with
  | some (.string text) => (StringToI.toI16 text).toNat?
  | some (.integer n) => n.toNat?
  | _ => none

def entryType (fields : List (String × Field)) : Option DataType :=
  match fields.lookup "type" with
  | some (.string text) => Base.types.find? fun type => typeName type = text.map Char.toLower
  | _ => none

def entryDef (k : String) : Entry → Option (String × ObjectDef)
  | .hash fields => do
    let oid ← entryOid fields
    let type ← entryType fields
    return (k, ⟨oid, k, type⟩)
  | .other => none

/-- `none` is an exception. -/
def fromJson : Json → Option ObjectTable
  | .hash entries => entries.mapM fun p => entryDef p.1 p.2
  | .other => none

/-- @defs[name] = obj. -/
def store (defs : ObjectTable) (name : String) (obj : ObjectDef) : ObjectTable :=
  if (defs.lookup name).isSome then defs.map fun p => if p.1 = name then (name, obj) else p
  else defs ++ [(name, obj)]

/-- The oid that comes after all others; nil has no method +. -/
def nextOid (defs : ObjectTable) : Option Nat := (defs.map (·.2.oid)).max?.map (· + 1)

structure Opts where
  oid : Option Nat
  type : DataType

def add (defs : ObjectTable) (name : String) (opts : Opts) : Option ObjectTable := do
  let oid ← opts.oid.or defs.nextOid
  return defs.store name ⟨oid, name, opts.type⟩

def addAll (defs : ObjectTable) (adds : List (String × Opts)) : Option ObjectTable :=
  adds.foldlM (fun defs a => defs.add a.1 a.2) defs

section Names

variable {defs defs' : ObjectTable} {name : String}

theorem lookupName_cons (p : String × ObjectDef) (defs : ObjectTable) (n : String) :
    lookupName (p :: defs) n = if n = p.1 then some p.2 else defs.lookupName n := by
  rw [lookupName, List.lookup_cons]
  by_cases h : n = p.1
  · rw [if_pos h, beq_iff_eq.mpr h]
  · rw [if_neg h, beq_eq_false_iff_ne.mpr h, lookupName]

theorem mem_of_lookupName {n : String} {obj : ObjectDef} (h : defs.lookupName n = some obj) :
    (n, obj) ∈ defs := by
  induction defs with
  | nil => cases h
  | cons p defs ih =>
    rw [lookupName_cons] at h
    split_ifs at h with hn
    · cases h
      exact hn ▸ List.mem_cons_self
    · exact List.mem_cons_of_mem p (ih h)

theorem lookupName_map (defs : ObjectTable) (name : String) (obj : ObjectDef) (n : String) :
    lookupName (defs.map fun p => if p.1 = name then (name, obj) else p) n =
      if n = name then (defs.lookupName n).map fun _ => obj else defs.lookupName n := by
  induction defs with
  | nil => split_ifs <;> rfl
  | cons p defs ih =>
    rw [List.map_cons, lookupName_cons, lookupName_cons, ih]
    by_cases hp : p.1 = name
    · rw [if_pos hp]
      by_cases hn : n = name
      · simp [hn, hp]
      · simp [hn, hp]
    · rw [if_neg hp]
      by_cases hn : n = p.1
      · simp [hn, hp]
      · simp [hn]

theorem lookupName_append (defs : ObjectTable) (name : String) (obj : ObjectDef) (n : String) :
    lookupName (defs ++ [(name, obj)]) n =
      (defs.lookupName n).or (if n = name then some obj else none) := by
  induction defs with
  | nil =>
    rw [List.nil_append, lookupName_cons]
    rfl
  | cons p defs ih =>
    rw [List.cons_append, lookupName_cons, lookupName_cons, ih]
    split_ifs <;> rfl

/-- The new definition is found under its name, the others as before. -/
theorem lookupName_store (defs : ObjectTable) (name : String) (obj : ObjectDef) (n : String) :
    (defs.store name obj).lookupName n = if n = name then some obj else defs.lookupName n := by
  unfold store
  cases hname : defs.lookup name with
  | none =>
    rw [Option.isSome_none, if_neg Bool.false_ne_true, lookupName_append]
    by_cases hn : n = name
    · subst hn
      rw [lookupName, hname, if_pos rfl]
      rfl
    · rw [if_neg hn, if_neg hn, Option.or_none]
  | some old =>
    rw [Option.isSome_some, if_pos rfl, lookupName_map]
    by_cases hn : n = name
    · subst hn
      rw [if_pos rfl, if_pos rfl, lookupName, hname]
      rfl
    · rw [if_neg hn, if_neg hn]

/-- Every object has its name for a key. -/
def Named (defs : ObjectTable) : Prop := ∀ n obj, defs.lookupName n = some obj → obj.name = n

theorem add_eq_some {opts : Opts} (h : defs.add name opts = some defs') :
    ∃ oid, opts.oid.or defs.nextOid = some oid ∧
      defs' = defs.store name ⟨oid, name, opts.type⟩ := by
  obtain ⟨oid, hoid, hdefs⟩ := Option.bind_eq_some_iff.mp h
  exact ⟨oid, hoid, (Option.some.inj hdefs).symm⟩

theorem entryDef_name {k : String} {entry : Entry} {p : String × ObjectDef}
    (h : entryDef k entry = some p) : p.2.name = p.1 := by
  cases entry with
  | other => cases h
  | hash fields =>
    obtain ⟨oid, -, h⟩ := Option.bind_eq_some_iff.mp h
    obtain ⟨type, -, h⟩ := Option.bind_eq_some_iff.mp h
    cases h
    rfl

theorem named_fromJson {json : Json} (h : fromJson json = some defs) : defs.Named := by
  cases json with
  | other => cases h
  | hash entries =>
    change entries.mapM (fun p => entryDef p.1 p.2) = some defs at h
    induction entries generalizing defs with
    | nil =>
      cases h
      intro n obj hobj
      cases hobj
    | cons p entries ih =>
      rw [List.mapM_cons] at h
      obtain ⟨q, hq, h⟩ := Option.bind_eq_some_iff.mp h
      obtain ⟨tail, htail, h⟩ := Option.bind_eq_some_iff.mp h
      cases h
      intro n obj hobj
      rw [lookupName_cons] at hobj
      split_ifs at hobj with hn
      · cases hobj
        rw [hn, entryDef_name hq]
      · exact ih htail n obj hobj

end Names

section Oids

variable {defs defs' : ObjectTable} {name : String} {oid : Nat}

/-- No two names stand for one object. -/
def Apart (defs : ObjectTable) : Prop :=
  ∀ n m obj obj', defs.lookupName n = some obj → defs.lookupName m = some obj' →
    obj.oid = obj'.oid → n = m

/-- No other name has this oid. -/
def Unused (defs : ObjectTable) (name : String) (oid : Nat) : Prop :=
  ∀ n obj, defs.lookupName n = some obj → n ≠ name → obj.oid ≠ oid

/-- Each oid that is given is unused when its turn comes. -/
def Fresh : ObjectTable → List (String × Opts) → Prop
  | _, [] => True
  | defs, (name, opts) :: adds =>
    (∀ oid, opts.oid = some oid → defs.Unused name oid) ∧
      ∀ defs', defs.add name opts = some defs' → Fresh defs' adds

theorem nextOid_unused (h : defs.nextOid = some oid) : defs.Unused name oid := by
  obtain ⟨top, htop, rfl⟩ := Option.map_eq_some_iff.mp h
  intro n obj hobj _
  have hmem : obj.oid ∈ defs.map (·.2.oid) :=
    List.mem_map.mpr ⟨(n, obj), mem_of_lookupName hobj, rfl⟩
  have hle : obj.oid ≤ top := (List.max?_eq_some_iff.mp htop).2 _ hmem
  omega

theorem apart_store (h : defs.Apart) (type : DataType) :
    (defs.store name ⟨oid, name, type⟩).Apart ↔ defs.Unused name oid := by
  constructor
  · intro hapart n obj hobj hn heq
    refine hn (hapart n name obj ⟨oid, name, type⟩ ?_ ?_ heq)
    · rwa [lookupName_store, if_neg hn]
    · rw [lookupName_store, if_pos rfl]
  · intro hunused n m obj obj' hobj hobj' heq
    rw [lookupName_store] at hobj hobj'
    split_ifs at hobj hobj' with hn hm hm
    · exact hn.trans hm.symm
    · cases hobj
      exact absurd heq.symm (hunused m obj' hobj' hm)
    · cases hobj'
      exact absurd heq (hunused n obj hobj hn)
    · exact h n m obj obj' hobj hobj' heq

/-- An oid that is not given is unused anyway. -/
theorem apart_add (h : defs.Apart) {opts : Opts} (hadd : defs.add name opts = some defs') :
    defs'.Apart ↔ ∀ oid, opts.oid = some oid → defs.Unused name oid := by
  obtain ⟨oid, hoid, rfl⟩ := add_eq_some hadd
  rw [apart_store h]
  cases hgiven : opts.oid with
  | none =>
    rw [hgiven, Option.none_or] at hoid
    exact iff_of_true (nextOid_unused hoid) nofun
  | some given =>
    rw [hgiven, Option.some_or] at hoid
    cases hoid
    exact ⟨fun hunused oid heq => by cases heq; exact hunused, fun hunused => hunused _ rfl⟩

theorem add_eq_none {opts : Opts} : defs.add name opts = none ↔ opts.oid = none ∧ defs = [] := by
  have hnext : defs.nextOid = none ↔ defs = [] := by
    rw [nextOid, Option.map_eq_none_iff, List.max?_eq_none_iff, List.map_eq_nil_iff]
  rw [← hnext, ← Option.or_eq_none_iff]
  cases h : opts.oid.or defs.nextOid <;> simp [add, h]

theorem store_ne_nil (defs : ObjectTable) (name : String) (obj : ObjectDef) :
    defs.store name obj ≠ [] := by
  unfold store
  split_ifs with h
  · rw [Ne, List.map_eq_nil_iff]
    rintro rfl
    cases h
  · exact List.append_ne_nil_of_right_ne_nil _ (List.cons_ne_nil _ _)

theorem addAll_cons (defs : ObjectTable) (a : String × Opts) (adds : List (String × Opts)) :
    defs.addAll (a :: adds) = (defs.add a.1 a.2).bind fun defs => defs.addAll adds := rfl

/-- Only the first addition can fail. -/
theorem addAll_ne_nil (h : defs ≠ []) (adds : List (String × Opts)) :
    ∃ defs', defs.addAll adds = some defs' := by
  induction adds generalizing defs with
  | nil => exact ⟨defs, rfl⟩
  | cons a adds ih =>
    rw [addAll_cons]
    cases hadd : defs.add a.1 a.2 with
    | none => exact absurd (add_eq_none.mp hadd).2 h
    | some defs' =>
      obtain ⟨oid, -, rfl⟩ := add_eq_some hadd
      exact ih (store_ne_nil _ _ _)

theorem addAll_eq_none {adds : List (String × Opts)} : defs.addAll adds = none ↔
    defs = [] ∧ ∃ name opts rest, adds = (name, opts) :: rest ∧ opts.oid = none := by
  cases adds with
  | nil => exact iff_of_false nofun fun ⟨_, _, _, _, h, _⟩ => by cases h
  | cons a adds =>
    rw [addAll_cons]
    cases hadd : defs.add a.1 a.2 with
    | none =>
      obtain ⟨hoid, hdefs⟩ := add_eq_none.mp hadd
      exact iff_of_true rfl ⟨hdefs, a.1, a.2, adds, rfl, hoid⟩
    | some defs' =>
      obtain ⟨oid, hoid, rfl⟩ := add_eq_some hadd
      obtain ⟨defs', hrun⟩ := addAll_ne_nil (store_ne_nil defs a.1 ⟨oid, a.1, a.2.type⟩) adds
      rw [Option.bind_some, hrun]
      refine iff_of_false nofun ?_
      rintro ⟨hdefs, name, opts, rest, heq, hnone⟩
      cases heq
      rw [add_eq_none.mpr ⟨hnone, hdefs⟩] at hadd
      cases hadd

/-- All states of a run are the first one, and those of the run from the second one on. -/
theorem forall_prefix_addAll {P : ObjectTable → Prop} {opts : Opts} {adds : List (String × Opts)} :
    (∀ before, before <+: (name, opts) :: adds → ∀ defs',
      defs.addAll before = some defs' → P defs') ↔
    P defs ∧ ∀ defs', defs.add name opts = some defs' → ∀ before, before <+: adds →
      ∀ defs'', defs'.addAll before = some defs'' → P defs'' := by
  constructor
  · refine fun h => ⟨h [] List.nil_prefix defs rfl, fun defs' hadd before hle defs'' hrun => ?_⟩
    apply h ((name, opts) :: before) (List.cons_prefix_cons.mpr ⟨rfl, hle⟩)
    rwa [addAll_cons, hadd]
  · rintro ⟨hfirst, hrest⟩ before hle defs'' hrun
    rcases List.prefix_cons_iff.mp hle with rfl | ⟨before, rfl, hbefore⟩
    · cases hrun
      exact hfirst
    · obtain ⟨defs', hadd, hrun⟩ := Option.bind_eq_some_iff.mp hrun
      exact hrest defs' hadd before hbefore defs'' hrun

/-- Names stay apart through a run of additions exactly if no oid is given that another name has;
a run fails exactly if it starts without an object and without an oid. -/
theorem adds_apart (defs : ObjectTable) (adds : List (String × Opts)) :
    (defs.addAll adds = none ↔
      defs = [] ∧ ∃ name opts rest, adds = (name, opts) :: rest ∧ opts.oid = none) ∧
    ((∀ before, before <+: adds → ∀ defs', defs.addAll before = some defs' → defs'.Apart) ↔
      defs.Apart ∧ defs.Fresh adds) := by
  refine ⟨addAll_eq_none, ?_⟩
  induction adds generalizing defs with
  | nil =>
    simp only [List.prefix_nil, forall_eq, Fresh, and_true]
    exact ⟨fun h => h defs rfl, fun h defs' heq => by cases heq; exact h⟩
  | cons a adds ih =>
    obtain ⟨name, opts⟩ := a
    rw [forall_prefix_addAll, Fresh]
    refine and_congr_right fun hapart => ?_
    cases hadd : defs.add name opts with
    | none =>
      have hoid := (add_eq_none.mp hadd).1
      refine iff_of_true nofun ⟨fun oid h => ?_, nofun⟩
      rw [hoid] at h
      cases h
    | some defs' =>
      simp only [Option.some.injEq, forall_eq']
      rw [ih defs', apart_add hapart hadd]

end Oids

end ObjectTable

end Client

end Aloof.Ruby
