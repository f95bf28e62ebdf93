import Mathlib.Data.List.Forall2
import Aloof.C.ServerRequest
import Aloof.Agreement.Alert
import Aloof.Ruby.ClientAlerts
import Aloof.Ruby.Listen

namespace Aloof.Agreement

open Framework C
open Ruby (FloatText)
open Ruby.Client (client alert? enabled)
open Ruby.TerminalType (zeroText)
open Ruby.CommandLine (Plain listen listen_injective)

variable {narrow : Server.Narrowing}

/-- What a server wrote to an empty output, when it says that the alert is in it. -/
def Raised (narrow : Server.Narrowing) (raised : UInt32 × Datum Bytes) (frame : List UInt8) :
    Prop :=
  ∃ out : Stream, out.pos = 0 ∧ (Server.alert narrow raised.1 raised.2 out).1 = true ∧
    (Server.alert narrow raised.1 raised.2 out).2.content = frame

/-- Frames with these alerts, and others that are no message between them. -/
inductive Raising (narrow : Server.Narrowing) :
    List (UInt32 × Datum Bytes) → List (List UInt8) → Prop where
  | nil : Raising narrow [] []
  | alert {raised : UInt32 × Datum Bytes} {frame : List UInt8}
      {more : List (UInt32 × Datum Bytes)} {frames : List (List UInt8)}
      (first : Raised narrow raised frame) (rest : Raising narrow more frames) :
      Raising narrow (raised :: more) (frame :: frames)
  | noise {frame : List UInt8} {more : List (UInt32 × Datum Bytes)} {frames : List (List UInt8)}
      (first : Ruby.MessageDecoder.decode frame = none) (rest : Raising narrow more frames) :
      Raising narrow more (frame :: frames)

/-- The Alert that an alert arrives as; the value is lost if it is a string of a clipped length. -/
structure Hears (narrow : Server.Narrowing) (raised : UInt32 × Datum Bytes) (msg : Ruby.Alert) :
    Prop where
  aid : msg.aid = received raised.1
  value : (∀ b, (carried narrow raised.2).string? = some b → ¬ Oer.Clipped b.size) →
    msg.value = (carried narrow raised.2).toRuby

/-- true means that the whole alert went out. -/
theorem Raised.frame_eq {raised : UInt32 × Datum Bytes} {frame : List UInt8}
    (h : Raised narrow raised frame) : frame = alertOctets raised.1 (carried narrow raised.2) := by
  obtain ⟨out, hout, htrue, rfl⟩ := h
  have happends := alert_appends narrow raised.1 raised.2
  by_cases hfits : out.Fits (alertOctets raised.1 (carried narrow raised.2)).length
  · rw [happends.ok hfits, Stream.content_append hfits.2, Server.content_eq_nil hout,
      List.nil_append]
  · rw [(happends.not_ok hfits).1] at htrue
    cases htrue

theorem alert?_of_base {frame r : List UInt8} {msg : Ruby.Alert}
    (h : Ruby.Base.decode frame = .ok (some (.alert msg), r)) : alert? frame = some msg := by
  rw [alert?, Ruby.MessageDecoder.decode, h]

theorem Raised.heard {raised : UInt32 × Datum Bytes} {frame : List UInt8}
    (h : Raised narrow raised frame) : ∃ msg, alert? frame = some msg ∧ Hears narrow raised msg := by
  obtain ⟨id, v⟩ := raised
  obtain rfl := h.frame_eq
  by_cases hclipped : ∃ b, (carried narrow v).string? = some b ∧ Oer.Clipped b.size
  · obtain ⟨b, hb, hclip⟩ := hclipped
    obtain ⟨value, hdecode, -⟩ := decode_clipped id _ hb hclip
    exact ⟨⟨received id, value⟩, alert?_of_base hdecode, rfl,
      fun hwhole => absurd hclip (hwhole b hb)⟩
  · have hwhole : ∀ b, (carried narrow v).string? = some b → ¬ Oer.Clipped b.size :=
      fun b hb hclip => hclipped ⟨b, hb, hclip⟩
    exact ⟨⟨received id, (carried narrow v).toRuby⟩,
      alert?_of_base (decode_alertOctets id _ hwhole), rfl, fun _ => rfl⟩

theorem Raising.heard {raised : List (UInt32 × Datum Bytes)} {frames : List (List UInt8)}
    (h : Raising narrow raised frames) :
    List.Forall₂ (Hears narrow) raised (frames.filterMap alert?) := by
  induction h with
  | nil => exact .nil
  | alert first rest ih =>
    obtain ⟨msg, halert, hhears⟩ := first.heard
    rw [List.filterMap_cons_some halert]
    exact .cons hhears ih
  | noise first rest ih =>
    rw [List.filterMap_cons_none (by rw [alert?, first])]
    exact ih

theorem raised_first : Raised (fun _ => 0) (3, .u8 7) [5, 3, 1, 7] :=
  ⟨Server.streamAt (List.replicate 8 0) (by decide) 0, rfl, by decide, by decide⟩

theorem disturbedCall_raising : Raising (fun _ => 0) [(3, .u8 7), (300, .i8 (-2))]
    (Ruby.Client.disturbedCall.filterMap Ruby.Client.Action.foreign) := by
  refine .alert raised_first (.noise Ruby.Client.decode_noise (.alert ?_ .nil))
  exact ⟨Server.streamAt (List.replicate 8 0) (by decide) 0, rfl, by decide, by decide⟩

section Screen

/-- The Alert that an alert arrives as when nothing is lost. -/
def told (narrow : Server.Narrowing) (raised : UInt32 × Datum Bytes) : Ruby.Alert :=
  ⟨received raised.1, (carried narrow raised.2).toRuby⟩

/-- Its string arrives, and its text is one line and not up to Float#to_s. -/
structure Printable (narrow : Server.Narrowing) (raised : UInt32 × Datum Bytes) : Prop where
  whole : ∀ b, (carried narrow raised.2).string? = some b → ¬ Oer.Clipped b.size
  newline : ∀ b, raised.2.string? = some b → 10 ∉ b.data
  type : raised.2.type ≠ .float

theorem Printable.legible {raised : UInt32 × Datum Bytes} (h : Printable narrow raised) :
    Ruby.TerminalType.Legible (told narrow raised).value := by
  obtain ⟨id, v⟩ := raised
  cases v with
  | float v => exact absurd rfl h.type
  | string b => exact ⟨rfl, h.newline b rfl⟩
  | blob b => exact ⟨rfl, h.newline b rfl⟩
  | _ => trivial

theorem heard_told {raised : List (UInt32 × Datum Bytes)} {heard : List Ruby.Alert}
    (h : List.Forall₂ (Hears narrow) raised heard) (hraised : ∀ r ∈ raised, Printable narrow r) :
    heard = raised.map (told narrow) := by
  induction h with
  | nil => rfl
  | @cons r msg more heard first rest ih =>
    rw [List.forall_mem_cons] at hraised
    have hmsg : msg = told narrow r := by
      cases msg
      exact congrArg₂ Ruby.Alert.mk first.aid (first.value hraised.1.whole)
    rw [hmsg, ih hraised.2, List.map_cons]

/-- What the block of on_alert has printed, when these are the alerts of a server that it was called
for; others may have come before it was set. -/
def Listens (narrow : Server.Narrowing) (floats : FloatText) (shown : List (UInt32 × Datum Bytes))
    (screen : List UInt8) : Prop :=
  ∃ (as : List Ruby.Client.Action) (s : Ruby.Client.State) (raised : List (UInt32 × Datum Bytes))
    (before : Nat) (times : List (List UInt8)),
    as.foldlM client.step client.init = some s ∧
    Raising narrow raised (as.filterMap Ruby.Client.Action.foreign) ∧
    shown = (raised.take s.alerts.length).drop before ∧
    times.length = shown.length ∧ (∀ time ∈ times, 93 ∉ time ∧ 10 ∉ time) ∧
    screen = listen floats (times.zip (s.alerts.drop before))

theorem Listens.printed {floats : FloatText} {shown : List (UInt32 × Datum Bytes)}
    {screen : List UInt8} (h : Listens narrow floats shown screen)
    (hshown : ∀ r ∈ shown, Printable narrow r) :
    ∃ ps, screen = listen floats ps ∧ (∀ p ∈ ps, Plain p.1 p.2) ∧
      ps.map Prod.snd = shown.map (told narrow) := by
  obtain ⟨as, s, raised, before, times, hrun, hraising, rfl, htimes, hplain, rfl⟩ := h
  have hheard := hraising.heard
  rw [← Ruby.Client.heard_run hrun, Ruby.Client.State.heard] at hheard
  have halerts := List.forall₂_take_append raised s.alerts s.receiver.alert.toList hheard
  have htold := heard_told (List.forall₂_drop before halerts) hshown
  rw [htold]
  refine ⟨_, rfl, fun p hp => ?_, List.map_snd_zip ?_⟩
  · obtain ⟨htime, hmsg⟩ := List.of_mem_zip hp
    obtain ⟨r, hr, hmsg⟩ := List.mem_map.mp hmsg
    exact ⟨(hplain _ htime).1, (hplain _ htime).2, hmsg ▸ (hshown r hr).legible⟩
  · rw [htimes, List.length_map]

/-- What is printed of alerts tells what they were. -/
theorem screen_tells {floats : FloatText} {shown shown' : List (UInt32 × Datum Bytes)}
    {screen : List UInt8} (h : Listens narrow floats shown screen)
    (h' : Listens narrow floats shown' screen) (hshown : ∀ r ∈ shown, Printable narrow r)
    (hshown' : ∀ r ∈ shown', Printable narrow r) :
    shown.map (told narrow) = shown'.map (told narrow) := by
  obtain ⟨ps, hscreen, hplain, hps⟩ := h.printed hshown
  obtain ⟨qs, hscreen', hplain', hqs⟩ := h'.printed hshown'
  obtain rfl := listen_injective hplain hplain' (hscreen.symm.trans hscreen')
  exact hps.symm.trans hqs

/-- A blob goes out as a string, and the same is printed for the string. -/
theorem screen_tells_blob :
    let screen := Ruby.ascii "[t] 3 string a\n".toList
    let narrow := fun _ => 0
    let bytes : Bytes := ⟨[97], by decide⟩
    Listens narrow zeroText [(3, .blob bytes)] screen ∧
    Listens narrow zeroText [(3, .string bytes)] screen ∧
    [told narrow (3, .blob bytes)] = [told narrow (3, .string bytes)] := by
  intro screen narrow bytes
  have hdecode : Ruby.MessageDecoder.decode [5, 3, 12, 1, 97] =
      some (.alert ⟨3, .string (.binary [97])⟩) := by
    rw [Ruby.MessageDecoder.decode, Ruby.Base.decode_alert]
    rfl
  obtain ⟨s, hrun, halerts⟩ : ∃ s,
      [.other [5, 3, 12, 1, 97], .decode].foldlM client.step client.init = some s ∧
        s.alerts = [⟨3, .string (.binary [97])⟩] :=
    ⟨_, System.run_cons (enabled (.other _ rfl (by rw [Ruby.Client.isResponse, hdecode]))) <|
      System.run_cons (enabled (.alert none _ _ rfl hdecode)) rfl, rfl⟩
  have hlistens : ∀ v, Raised narrow (3, v) [5, 3, 12, 1, 97] →
      Listens narrow zeroText [(3, v)] screen := by
    intro v hraised
    refine ⟨_, s, _, 0, [Ruby.ascii ['t']], hrun, .alert hraised .nil, ?_, rfl, by decide, ?_⟩
    · rw [halerts]
      rfl
    · rw [halerts]
      rfl
  have hprintable : ∀ v, (carried narrow v).string? = some bytes → v.string? = some bytes →
      v.type ≠ .float → ∀ r ∈ [((3 : UInt32), v)], Printable narrow r := by
    intro v hcarried hv htype r hr
    obtain rfl := List.mem_singleton.mp hr
    refine ⟨fun b hb => ?_, fun b hb => ?_, htype⟩
    · obtain rfl := Option.some.inj (hcarried.symm.trans hb)
      decide
    · obtain rfl := Option.some.inj (hv.symm.trans hb)
      decide
  have hblob := hlistens (.blob bytes)
    ⟨Server.streamAt (List.replicate 8 0) (by decide) 0, rfl, by decide, by decide⟩
  have hstring := hlistens (.string bytes)
    ⟨Server.streamAt (List.replicate 8 0) (by decide) 0, rfl, by decide, by decide⟩
  exact ⟨hblob, hstring, screen_tells hblob hstring (hprintable _ rfl rfl (by simp [Datum.type]))
    (hprintable _ rfl rfl (by simp [Datum.type]))⟩

end Screen

end Aloof.Agreement
