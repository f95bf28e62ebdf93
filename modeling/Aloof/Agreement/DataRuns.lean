import Aloof.Agreement.Value
import Aloof.C.RoundTrip

namespace Aloof.Agreement

open Framework C

/-- aloof_data_put_<type> for each value in turn. -/
def putAll : List (Datum Bytes) → Putter
  | [] => fun s => (true, s)
  | d :: ds => (Data.put d).andThen (putAll ds)

/-- aloof_data_get, and for a string one aloof_data_get_string with room for max bytes. -/
def fetch (scratch : UInt8) (max : UInt32) : Getter (Datum (List UInt8)) := do
  let data ← Data.get scratch
  match data.string? with
  | none => return data.map fun _ => []
  | some _ => fun s =>
    let chunk := Data.getString data s max
    (some (data.map fun _ => chunk.value), chunk.s)

def fetchAll (scratch : UInt8) : List UInt32 → Getter (List (Datum (List UInt8)))
  | [] => return []
  | max :: maxes => do
    let value ← fetch scratch max
    return value :: (← fetchAll scratch maxes)

theorem putAll_ok (ds : List (Datum Bytes)) {s : Stream} (hw : s.writable = true)
    (h : (ds.flatMap datumOctets).length ≤ s.room) :
    putAll ds s = (true, s.append (ds.flatMap datumOctets)) := by
  induction ds generalizing s with
  | nil => simp [putAll]
  | cons d ds ih =>
    rw [List.flatMap_cons, List.length_append] at h
    have hfirst := (Data.put_appends d).ok (s := s) ⟨hw, by omega⟩
    have hfits : (datumOctets d).length ≤ s.room := by omega
    have hroom := Stream.room_append hfits
    have hothers := ih (s := s.append (datumOctets d)) hw (by omega)
    rw [Stream.append_append h] at hothers
    simp only [putAll, Putter.andThen, hfirst]
    exact hothers

/-- What is got of a value at the front of the input, up to the bytes of a string. -/
theorem get_front (scratch : UInt8) {d : Datum Bytes} {t : Stream} {tl : List UInt8}
    (hrest : t.rest = head d ++ tl) :
    ∃ data, Data.get scratch t = (some data, t.skip (head d).length) ∧
      data.map StringRx.size = d.map Bytes.size := by
  have hdata := data_decodes d tl
  rw [← hrest] at hdata
  obtain ⟨hget, -⟩ := (Data.get_implements scratch t).after hdata
  obtain ⟨data, u, hdata', hu⟩ := Getter.bind_eq_some hget
  have hu' : u = t.after tl := congrArg Prod.snd hu
  have hhead : t.rest.length - tl.length = (head d).length := by
    rw [hrest, List.length_append]
    omega
  rw [hu', Stream.after, hhead] at hdata'
  exact ⟨data, hdata', Option.some.inj (congrArg Prod.fst hu)⟩

/-- The bytes of a string fill its place; to a value of another kind they do not matter. -/
theorem map_bytes {data : DataRx} {d : Datum Bytes}
    (hsize : data.map StringRx.size = d.map Bytes.size) (bytes : List UInt8)
    (h : ∀ b, d.string? = some b → bytes = b.data) :
    data.map (fun _ => bytes) = d.map Bytes.data := by
  have hconst := congrArg (Datum.map fun _ : UInt32 => bytes) hsize
  rw [Datum.map_map, Datum.map_map] at hconst
  exact hconst.trans (Datum.map_congr h)

/-- A value at the front of the input is fetched, and no more than the value. -/
theorem fetch_front (scratch : UInt8) (max : UInt32) {d : Datum Bytes} {t : Stream}
    {tl : List UInt8} (hrest : t.rest = datumOctets d ++ tl)
    (hd : ∀ b, d.string? = some b → ¬ Oer.Clipped b.size ∧ b.size ≤ max) :
    fetch scratch max t = (some (d.map Bytes.data), t.skip (datumOctets d).length) := by
  have hwire := datumOctets_eq fun b hb => (hd b hb).1
  rw [hwire, List.append_assoc] at hrest
  obtain ⟨data, hget, hsize⟩ := get_front scratch hrest
  have hleft : (t.skip (head d).length).rest = payload d ++ tl := by
    rw [Stream.rest_skip (by rw [hrest, List.length_append]; omega), hrest, List.drop_left]
  have hstring : data.string?.map StringRx.size = d.string?.map Bytes.size := by
    have h := congrArg Datum.string? hsize
    rwa [Datum.string?_map, Datum.string?_map] at h
  rw [fetch, Getter.bind_of_some hget, hwire]
  cases hb : d.string? with
  | none =>
    rw [hb, Option.map_none, Option.map_eq_none_iff] at hstring
    have hnone : payload d = [] := by rw [payload, hb]; rfl
    have hplain := map_bytes hsize [] fun b h => by rw [hb] at h; cases h
    rw [hnone, List.append_nil, ← hplain]
    simp only [hstring]
    rfl
  | some b =>
    rw [hb, Option.map_some, Option.map_eq_some_iff] at hstring
    obtain ⟨w, hw, hwsize⟩ := hstring
    have hbytes : payload d = b.data := by rw [payload, hb]; rfl
    have hlen : w.size.toNat = b.data.length := by rw [hwsize, b.toNat_size]
    rw [hbytes] at hleft
    have hmax : w.size ≤ max := hwsize ▸ (hd b hb).2
    have hrest' : w.size.toNat ≤ (t.skip (head d).length).rest.length := by
      rw [hleft, List.length_append]
      omega
    obtain ⟨-, hvalue', hs⟩ := Data.getString_whole hw (Data.get_start hget hw) hrest' hmax
    rw [hlen] at hvalue' hs
    rw [hleft, List.take_left] at hvalue'
    have hend : (t.skip (head d).length).skip b.data.length =
        t.skip (head d ++ b.data).length := by
      rw [List.length_append]
      apply Stream.skip_skip
      rw [hrest, hbytes, List.length_append, List.length_append]
      omega
    have hall := map_bytes hsize b.data fun b' h => by rw [hb] at h; cases h; rfl
    rw [hbytes, ← hall, ← hend, ← hs, ← hvalue']
    simp only [hw]

theorem fetchAll_front (scratch : UInt8) (vs : List (Datum Bytes × UInt32)) {t : Stream}
    {tl : List UInt8} (hrest : t.rest = (vs.map Prod.fst).flatMap datumOctets ++ tl)
    (hvs : ∀ v ∈ vs, ∀ b, v.1.string? = some b → ¬ Oer.Clipped b.size ∧ b.size ≤ v.2) :
    fetchAll scratch (vs.map Prod.snd) t = (some ((vs.map Prod.fst).map (Datum.map Bytes.data)),
      t.skip ((vs.map Prod.fst).flatMap datumOctets).length) := by
  induction vs generalizing t with
  | nil => exact congrArg (Prod.mk (some [])) t.skip_zero.symm
  | cons v vs ih =>
    rw [List.map_cons, List.flatMap_cons, List.append_assoc] at hrest
    have hlen := congrArg List.length hrest
    rw [List.length_append, List.length_append] at hlen
    have hfirst := fetch_front scratch v.2 hrest (hvs v List.mem_cons_self)
    have hleft : (t.skip (datumOctets v.1).length).rest =
        (vs.map Prod.fst).flatMap datumOctets ++ tl := by
      rw [Stream.rest_skip (by omega), hrest, List.drop_left]
    have hothers := ih hleft fun u hu => hvs u (List.mem_cons_of_mem v hu)
    rw [Stream.skip_skip (by omega)] at hothers
    rw [List.map_cons, fetchAll, Getter.bind_of_some hfirst, Getter.bind_of_some hothers,
      List.map_cons, List.map_cons, List.flatMap_cons, List.length_append]
    rfl

/-- A value that fits in a frame has no string of a clipped size. -/
theorem not_clipped_of_mem {ds : List (Datum Bytes)} {d : Datum Bytes} {b : Bytes} (hmem : d ∈ ds)
    (hb : d.string? = some b) (h : (ds.flatMap datumOctets).length ≤ 65535) :
    ¬ Oer.Clipped b.size := by
  have hlen : b.data.length ≤ (datumOctets d).length := by
    cases d
    case string b' => cases hb; simp [datumOctets]; omega
    case blob b' => cases hb; simp [datumOctets]; omega
    all_goals cases hb
  have hle : (datumOctets d).length ≤ (ds.flatMap datumOctets).length := by
    obtain ⟨before, after, rfl⟩ := List.append_of_mem hmem
    rw [List.flatMap_append, List.flatMap_cons, List.length_append, List.length_append]
    omega
  intro hclipped
  have hsize := b.toNat_size
  obtain hclipped | hclipped := hclipped
  · rw [hclipped] at hsize
    change 65536 = _ at hsize
    omega
  · rw [hclipped] at hsize
    change 16777216 = _ at hsize
    omega

/-- What is put into a frame is got from it, value for value and byte for byte. -/
theorem data_run (scratch : UInt8) (vs : List (Datum Bytes × UInt32)) (s : Stream)
    (hr : s.readable = true) (hw : s.writable = true) (hsize : s.buf.length ≤ 65535)
    (hroom : ((vs.map Prod.fst).flatMap datumOctets).length ≤ s.room)
    (hmax : ∀ v ∈ vs, ∀ b, v.1.string? = some b → b.size ≤ v.2) :
    (putAll (vs.map Prod.fst) s).1 = true ∧
    fetchAll scratch (vs.map Prod.snd) ((putAll (vs.map Prod.fst) s).2.seekSet s.pos).2 =
      (some ((vs.map Prod.fst).map (Datum.map Bytes.data)), (putAll (vs.map Prod.fst) s).2) := by
  have hle := s.room_le
  have hput := putAll_ok (vs.map Prod.fst) hw hroom
  have hfetch := fetchAll_front scratch vs (Stream.rest_reread hr hroom) fun v hv b hb =>
    ⟨not_clipped_of_mem (List.mem_map_of_mem hv) hb (by omega), hmax v hv b hb⟩
  rw [Stream.skip_reread] at hfetch
  rw [hput]
  exact ⟨rfl, hfetch⟩

/-- A negative number, then two letters for which three bytes are ready. -/
def mixed : List (Datum Bytes × UInt32) := [(.i16 (-2), 0), (.string ⟨[104, 105], by decide⟩, 3)]

/-- Eight free bytes. -/
def paper : Stream := Stream.init [0, 0, 0, 0, 0, 0, 0, 0] (by decide)

theorem data_run_mixed : (putAll (mixed.map Prod.fst) paper).1 = true ∧
    fetchAll 0 (mixed.map Prod.snd)
        ((putAll (mixed.map Prod.fst) paper).2.seekSet paper.pos).2 =
      (some ((mixed.map Prod.fst).map (Datum.map Bytes.data)),
        (putAll (mixed.map Prod.fst) paper).2) := by
  apply data_run 0 mixed paper rfl rfl (by decide) (by decide)
  intro v hv b hb
  simp only [mixed, List.mem_cons, List.not_mem_nil, or_false] at hv
  obtain rfl | rfl := hv
  · cases hb
  · cases hb
    decide

end Aloof.Agreement
