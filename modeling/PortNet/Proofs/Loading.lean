import Mathlib.Tactic.SplitIfs
import PortNet.Proofs.Exchange
import PortNet.Proofs.Json.Loading

namespace PortNet
open Json

variable {depth : Nat} {doc : Document} {name : String}

theorem Extras.Fits.decode {reserved : List String} {e e' : Extras reserved} (he : e.Fits depth)
    (hdoc : doc.Fits depth) (h : e.decode name doc = .ok e') : e'.Fits depth := by
  obtain ⟨x, hx, h⟩ := bind_eq_ok.mp h
  cases h
  intro m hm
  rw [add] at hm
  split at hm
  · exact he m hm
  · rcases mem_of_mem_upsert hm with rfl | hm
    · exact Decoder.fits_value hdoc hx
    · exact he m hm

theorem PortType.fits_decode {t : PortType} (hdoc : doc.Fits depth) (h : decode doc = .ok t) :
    t.json.Fits depth := by
  obtain ⟨x, hx, h⟩ := bind_eq_ok.mp h
  cases h
  exact Decoder.fits_value hdoc hx

theorem PortType.ne_null_of_decode {t : PortType} (hdoc : doc ≠ .null) (h : decode doc = .ok t) :
    t.json ≠ .null := by
  obtain ⟨x, hx, h⟩ := bind_eq_ok.mp h
  cases h
  rintro rfl
  exact hdoc (Decoder.eq_null_of_value hx)

theorem PortMap.fits_decode {m : PortMap} (hdoc : doc.Fits (depth + 1))
    (h : Decoder.nullable (Decoder.dictionary PortType.decode) doc = .ok (some m)) :
    ∀ p ∈ m.toList, p.2.json.Fits depth := by
  intro p hp
  obtain ⟨_, hm⟩ := Decoder.nullable_eq_some h
  obtain ⟨item, hitem, hdecode⟩ := Decoder.exists_mem_of_dictionary hdoc hm p hp
  exact PortType.fits_decode hitem hdecode

namespace Settings
variable {s s' : Settings}

theorem Fits.add (hs : s.Fits depth) (hdoc : doc.Fits depth) (h : s.add name doc = .ok s') :
    s'.Fits depth := by
  unfold Settings.add at h
  split_ifs at h <;> obtain ⟨x, hx, h⟩ := bind_eq_ok.mp h <;> cases h
  · exact ⟨hs.genericType, hs.extras⟩
  · exact ⟨hs.genericType, hs.extras⟩
  · refine ⟨fun t ht => ?_, hs.extras⟩
    obtain rfl : x = some t := ht
    -- A null stands for a missing type, so the type that was read is none.
    obtain ⟨hnull, ht⟩ := Decoder.nullable_eq_some hx
    exact ⟨PortType.ne_null_of_decode hnull ht, PortType.fits_decode hdoc ht⟩
  · exact ⟨hs.genericType, hs.extras.decode hdoc hx⟩

theorem fits_decode (hdoc : doc.Fits (depth + 1)) (h : decode doc = .ok s) : s.Fits depth :=
  Decoder.invariant_of_record hdoc h ⟨fun _ hnone => absurd hnone (by simp), Extras.fits_empty _⟩
    fun _ _ _ _ hdoc hs h => hs.add hdoc h

end Settings

namespace NodeValue
variable {v v' : NodeValue}

/-- The ports of a map that may be missing. -/
theorem fits_getD {m? : Option PortMap}
    (h : ∀ m, m? = some m → ∀ p ∈ m.toList, p.2.json.Fits depth) :
    ∀ p ∈ (m?.getD Table.empty).toList, p.2.json.Fits depth := by
  cases m? with
  | none => exact fun _ hp => absurd hp List.not_mem_nil
  | some m => exact h m rfl

theorem Fits.add (hv : v.Fits depth) (hdoc : doc.Fits (depth + 1))
    (h : v.add name doc = .ok v') : v'.Fits depth := by
  unfold NodeValue.add at h
  split_ifs at h <;> obtain ⟨x, hx, h⟩ := bind_eq_ok.mp h <;> cases h
  · exact ⟨hv.ports, hv.settings, hv.extras⟩
  · exact ⟨hv.ports, hv.settings, hv.extras⟩
  · refine ⟨fun side => ?_, hv.settings, hv.extras⟩
    cases side with
    | input => exact fits_getD fun m hm => PortMap.fits_decode hdoc (hm ▸ hx)
    | output => exact hv.ports .output
  · refine ⟨fun side => ?_, hv.settings, hv.extras⟩
    cases side with
    | input => exact hv.ports .input
    | output => exact fits_getD fun m hm => PortMap.fits_decode hdoc (hm ▸ hx)
  · exact ⟨hv.ports, hv.settings, hv.extras⟩
  · exact ⟨hv.ports, hv.settings, hv.extras⟩
  · exact ⟨hv.ports, hv.settings, hv.extras⟩
  · refine ⟨hv.ports, fun s hs => ?_, hv.extras⟩
    obtain rfl : x = some s := hs
    exact Settings.fits_decode hdoc (Decoder.nullable_eq_some hx).2
  · exact ⟨hv.ports, hv.settings, hv.extras.decode hdoc hx⟩

theorem fits_empty (depth : Nat) : ({} : NodeValue).Fits depth where
  ports := by
    intro side
    cases side <;> exact fun _ hp => absurd hp List.not_mem_nil
  settings _ hnone := absurd hnone (by simp)
  extras := Extras.fits_empty _

theorem fits_decode (hdoc : doc.Fits (depth + 2)) (h : decode doc = .ok v) : v.Fits depth :=
  Decoder.invariant_of_record hdoc h (fits_empty depth) fun _ _ _ _ hdoc hv h => hv.add hdoc h

end NodeValue

namespace Node
variable {n : Node}

/-- What is kept while the members of a node are taken in. -/
structure Entry.Fits (depth : Nat) (e : Entry) : Prop where
  value : e.value.Fits depth
  extras : e.extras.Fits (depth + 2)

theorem Entry.Fits.add {e e' : Entry} (he : e.Fits depth) (hdoc : doc.Fits (depth + 2))
    (h : e.add name doc = .ok e') : e'.Fits depth := by
  unfold Entry.add at h
  split_ifs at h <;> obtain ⟨x, hx, h⟩ := bind_eq_ok.mp h <;> cases h
  · exact ⟨he.value, he.extras⟩
  · exact ⟨NodeValue.fits_decode hdoc hx, he.extras⟩
  · exact ⟨he.value, he.extras⟩
  · exact ⟨he.value, he.extras.decode hdoc hx⟩

theorem fits_decode (hdoc : doc.Fits (depth + 3)) (h : decode doc = .ok n) : n.Fits depth := by
  obtain ⟨e, he, h⟩ := bind_eq_ok.mp h
  cases h
  have hentry := Decoder.invariant_of_record (P := Entry.Fits depth) hdoc he
    ⟨NodeValue.fits_empty depth, Extras.fits_empty _⟩ fun _ _ _ _ hdoc he h => he.add hdoc h
  exact ⟨rfl, hentry.value, hentry.extras⟩

end Node

namespace Edge
variable {e : Edge}

theorem Pair.fits_decode {p : Pair} (hdoc : doc.Fits (depth + 1)) (h : decode doc = .ok p) :
    p.extras.Fits depth := by
  refine Decoder.invariant_of_record (P := fun p => p.extras.Fits depth) hdoc h
    (Extras.fits_empty _) ?_
  intro p name doc p' hdoc hp h
  unfold add at h
  split_ifs at h <;> obtain ⟨x, hx, h⟩ := bind_eq_ok.mp h <;> cases h
  · exact hp
  · exact hp
  · exact hp
  · exact hp.decode hdoc hx

/-- What is kept while the members of an edge are taken in. -/
structure Entry.Fits (depth : Nat) (e : Entry) : Prop where
  pair : e.pair.extras.Fits (depth + 1)
  extras : e.extras.Fits (depth + 2)

theorem Entry.Fits.add {e e' : Entry} (he : e.Fits depth) (hdoc : doc.Fits (depth + 2))
    (h : e.add name doc = .ok e') : e'.Fits depth := by
  unfold Entry.add at h
  split_ifs at h <;> obtain ⟨x, hx, h⟩ := bind_eq_ok.mp h <;> cases h
  · exact ⟨he.pair, he.extras⟩
  · exact ⟨he.pair, he.extras⟩
  · exact ⟨Pair.fits_decode hdoc hx, he.extras⟩
  · exact ⟨he.pair, he.extras⟩
  · exact ⟨he.pair, he.extras⟩
  · exact ⟨he.pair, he.extras.decode hdoc hx⟩

theorem fits_decode (hdoc : doc.Fits (depth + 3)) (h : decode doc = .ok e) : e.Fits depth := by
  obtain ⟨entry, hentry, h⟩ := bind_eq_ok.mp h
  cases h
  have hfits := Decoder.invariant_of_record (P := Entry.Fits depth) hdoc hentry
    ⟨Extras.fits_empty _, Extras.fits_empty _⟩ fun _ _ _ _ hdoc he h => he.add hdoc h
  exact ⟨hfits.pair, hfits.extras⟩

end Edge

namespace Graph
variable {g : Graph}

/-- What is kept while the members of a graph are taken in. -/
structure Entry.Fits (depth : Nat) (e : Entry) : Prop where
  nodes : ∀ n ∈ e.nodes, n.Fits depth
  edges : ∀ d ∈ e.edges, d.Fits depth
  extras : e.extras.Fits (depth + 4)

theorem Entry.Fits.add {e e' : Entry} (he : e.Fits depth) (hdoc : doc.Fits (depth + 4))
    (h : e.add name doc = .ok e') : e'.Fits depth := by
  unfold Entry.add at h
  split_ifs at h <;> obtain ⟨x, hx, h⟩ := bind_eq_ok.mp h <;> cases h
  · refine ⟨fun n hn => ?_, he.edges, he.extras⟩
    obtain ⟨item, hitem, hn⟩ := Decoder.exists_mem_of_list hdoc hx n hn
    exact Node.fits_decode hitem hn
  · refine ⟨he.nodes, fun d hd => ?_, he.extras⟩
    obtain ⟨item, hitem, hd⟩ := Decoder.exists_mem_of_list hdoc hx d hd
    exact Edge.fits_decode hitem hd
  · exact ⟨he.nodes, he.edges, he.extras.decode hdoc hx⟩

theorem fits_decode (hdoc : doc.Fits (depth + 5)) (h : decode doc = .ok g) : g.Fits depth := by
  obtain ⟨e, he, h⟩ := bind_eq_ok.mp h
  cases h
  have hentry := Decoder.invariant_of_record (P := Entry.Fits depth) hdoc he
    ⟨fun _ hn => absurd hn List.not_mem_nil, fun _ hd => absurd hd List.not_mem_nil,
      Extras.fits_empty _⟩ fun _ _ _ _ hdoc he h => he.add hdoc h
  exact ⟨fun n hn => hentry.nodes n (Table.mem_of_mem_ofList hn), hentry.edges, hentry.extras⟩

/-- A graph that was loaded from a text of whole numbers is within the nesting limit. -/
theorem fits_ofText {text : String} (hload : ofText text = .ok g)
    (hwhole : (documentOf text).Whole) : g.Fits innerDepth :=
  fits_decode (fits_readValue _ depthLimit _ hwhole) (decode_documentOf hload)

end Graph
end PortNet
