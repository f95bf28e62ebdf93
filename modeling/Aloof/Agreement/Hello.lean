import Aloof.Agreement.RoundTrip
import Aloof.C.ServerEffects

namespace Aloof.Agreement

open Framework C

def station : Ruby.StationType → Station
  | .client => .client
  | .server => .server

theorem hello_encode (msg : Ruby.Hello) : ∃ last : UInt8, msg.encode Ruby.Hello.tag =
    0 :: (Varint.encode msg.version ++ (Ruby.pack 2 msg.features ++ [last])) := by
  rw [Ruby.Hello.encode, Ruby.OutputCodec.putUint_eq, Ruby.OutputCodec.putUint_eq]
  cases msg.stationType with
  | client => exact ⟨0, congrArg (List.cons 0) (List.append_assoc _ _ _)⟩
  | server => exact ⟨1, congrArg (List.cons 0) (List.append_assoc _ _ _)⟩

/-- The station, a number of at least one octet, and four octets. -/
theorem hello_short (b : UInt8) {tl : List UInt8} (h : tl.length < 5) :
    Grammar.hello (b :: tl) = .error () := by
  cases hrun : Grammar.hello (b :: tl) with
  | error e => rfl
  | ok r =>
    rw [Grammar.hello, Decoder.bind_ok (Grammar.octet_cons b tl)] at hrun
    cases hstation : Server.stations[b.toNat]? with
    | none =>
      rw [hstation] at hrun
      cases hrun
    | some station =>
      rw [hstation] at hrun
      obtain ⟨version, t, hversion, hrun⟩ := Decoder.bind_eq_ok hrun
      obtain ⟨features, t', hfeatures, -⟩ := Decoder.bind_eq_ok hrun
      have := Grammar.uint_takes hversion
      have := Grammar.u32_takes hfeatures
      omega

theorem hello_station {b : UInt8} (h : 2 ≤ b.toNat) (tl : List UInt8) :
    Grammar.hello (b :: tl) = .error () := by
  have hnone : Server.stations[b.toNat]? = none := List.getElem?_eq_none h
  rw [Grammar.hello, Decoder.bind_ok (Grammar.octet_cons b tl), hnone]
  rfl

/-- The server looks for the station where the client has put the version. -/
theorem hello_rejected (msg : Ruby.Hello) (last : UInt8) :
    Grammar.hello (Varint.encode msg.version ++ (Ruby.pack 2 msg.features ++ [last])) =
      .error () := by
  have htwo : (Ruby.pack 2 msg.features).length = 2 := length_octets 2 _
  have hlong (k : Nat) (hk : k ≤ 4) : 2 ≤ (UInt8.ofNat (128 + k)).toNat := by
    rw [UInt8.toNat_ofNat_of_lt' (show 128 + k < 2^8 by omega)]
    omega
  unfold Varint.encode
  split_ifs
  · exact hello_short _ (by change (Ruby.pack 2 msg.features ++ [last]).length < 5; simp [htwo])
  · exact hello_station (hlong 1 (by decide)) _
  · exact hello_station (hlong 2 (by decide)) _
  · exact hello_station (hlong 3 (by decide)) _
  · exact hello_station (hlong 4 (by decide)) _

variable {σ : Type} (srv : Server σ) (loc : Locals) (app : σ) (msg : Ruby.Hello) (out : Stream)

theorem hello_length : (msg.encode Ruby.Hello.tag).length < 2^32 := by
  obtain ⟨last, hframe⟩ := hello_encode msg
  have htwo : (Ruby.pack 2 msg.features).length = 2 := length_octets 2 _
  have hversion : (Varint.encode msg.version).length ≤ 5 := by
    unfold Varint.encode
    split_ifs <;> simp [Varint.short, Varint.long]
  rw [hframe]
  simp only [List.length_cons, List.length_append, List.length_nil, htwo]
  omega

/-- The server has read the client's station, version and features, and all of the frame. -/
def Understood (r : Option Hello × Stream) : Prop :=
  ∃ hello, r.1 = some hello ∧ hello.station = station msg.stationType ∧
    hello.version.toNat = msg.version ∧ (hello.features.toNat : Int) = msg.features ∧
    r.2.rest = []

/-- The client has read the server's station, version and features out of what was added to the
output. -/
def Introduced (out out' : Stream) : Prop :=
  ∃ bs, out'.content = out.content ++ bs ∧
    (Ruby.MessageDecoder.decode bs).map Ruby.Message.any =
      some (.helloHello ⟨srv.version.toNat, srv.features.toNat, .server⟩)

/-- The input of a server that gets this Hello. -/
def helloInput : Stream := Stream.initRo (msg.encode Ruby.Hello.tag) (hello_length msg)

/-- No Hello of the client is understood or answered, and no HelloHello is ever decoded. -/
theorem hello_never :
    ¬ Understood msg (Server.getHello loc.scratch ((helloInput msg).skip 1)) ∧
    (srv.process loc app (helloInput msg) out).out = out ∧
    (srv.process loc app (helloInput msg) out).calls = [] ∧
    ∀ out', ¬ Introduced srv out out' := by
  obtain ⟨last, hframe⟩ := hello_encode msg
  have hrest : (helloInput msg).rest =
      0 :: (Varint.encode msg.version ++ (Ruby.pack 2 msg.features ++ [last])) :=
    (Stream.rest_initRo _).trans hframe
  have hbody : Grammar.hello ((helloInput msg).skip 1).rest = .error () := by
    rw [Stream.rest_skip (by simp [hrest]), hrest]
    exact hello_rejected msg last
  obtain ⟨n, -, hnone⟩ :=
    (Server.getHello_implements loc.scratch ((helloInput msg).skip 1)).error hbody
  have hrun : srv.process loc app (helloInput msg) out =
      ⟨app, ((helloInput msg).skip 1).skip n, out, []⟩ := by
    rw [srv.process_hello loc app _ out hrest, Server.processHello, hnone]
    rfl
  rw [hrun, hnone]
  refine ⟨?_, rfl, rfl, ?_⟩
  · intro h
    obtain ⟨hello, h, -⟩ := h
    cases h
  · intro out' h
    obtain ⟨bs, -, hdecode⟩ := h
    cases h : Ruby.MessageDecoder.decode bs with
    | none =>
      rw [h] at hdecode
      cases hdecode
    | some m =>
      rw [h] at hdecode
      cases m <;> cases hdecode

/-- The Hello of a client of version 0: the third byte of the features is missing. -/
theorem hello_zero :
    (helloInput ⟨0, 0, .client⟩).rest = [0, 0, 0, 0, 0] ∧
    ¬ Understood ⟨0, 0, .client⟩ (Server.getHello 0 ((helloInput ⟨0, 0, .client⟩).skip 1)) ∧
    (Server.process Server.meter Server.zeroed () (helloInput ⟨0, 0, .client⟩)
      (Server.streamAt [0, 0, 0, 0, 0, 0, 0, 0] (by decide) 0)).out.content = [] := by
  refine ⟨by decide, ?_, by decide⟩
  have hnone : (Server.getHello 0 ((helloInput ⟨0, 0, .client⟩).skip 1)).1 = none := by
    decide
  intro h
  obtain ⟨hello, h, -⟩ := h
  cases hnone.symm.trans h

end Aloof.Agreement
