import PortNet.Proofs.Exchange
import PortNet.Proofs.Json.Restoring

namespace PortNet
open Json

variable {name : String} {x : Json}

theorem PortType.restores_decode : Restores (fun _ => True) decode json := by
  intro x t hx _ h
  obtain ⟨y, hy, h⟩ := bind_eq_ok.mp h
  cases h
  exact restores_value hx trivial hy

theorem PortMap.restores_dictionary :
    Restores (fun _ => True) (Decoder.dictionary PortType.decode) toJson :=
  PortType.restores_decode.dictionary

namespace Settings

/-- No field is null. A null field would be taken for one that is not there. -/
def Explicit (d : Json) : Prop := ∀ name ∈ fields, d.member? name ≠ some .null

instance (d : Json) : Decidable (Explicit d) :=
  inferInstanceAs (Decidable (∀ name ∈ fields, _ ≠ _))

theorem takes_add {s s' : Settings} (hx : x.Proper) (hnull : name ∈ fields → x ≠ .null)
    (h : s.add name (.ofJson x) = .ok s') : Takes (shape.toJson s) (shape.toJson s') name x := by
  rw [add] at h
  split at h
  · subst name
    exact shape.takes_nullable restores_string.list hx (fun _ _ _ _ => trivial)
      (hnull (by decide)) h fun _ => ⟨rfl, rfl⟩
  split at h
  · subst name
    exact shape.takes_nullable restores_boolean hx trivial (hnull (by decide)) h fun _ => ⟨rfl, rfl⟩
  split at h
  · subst name
    exact shape.takes_nullable PortType.restores_decode hx trivial (hnull (by decide)) h
      fun _ => ⟨rfl, rfl⟩
  · exact shape.takes_extra hx (by simp_all [fields]) h fun _ => ⟨rfl, rfl⟩

theorem restores_decode : Restores Explicit decode toJson := by
  intro d s hd hexplicit h
  rw [toJson_eq]
  refine shape.reordered_of_record hd h ?_ fun _ hname => absurd hname List.not_mem_nil
  intro name x hmember hx s s' hadd
  exact takes_add hx (fun hfield hnull => hexplicit name hfield (hnull ▸ hmember)) hadd

end Settings

namespace NodeValue

/-- No field is null, also not of the settings. -/
def Explicit (d : Json) : Prop :=
  (∀ name ∈ fields, d.member? name ≠ some .null) ∧
    ∀ s ∈ d.member? "settings", Settings.Explicit s

instance (d : Json) : Decidable (Explicit d) := inferInstanceAs (Decidable (_ ∧ _))

theorem takes_add {v v' : NodeValue} (hx : x.Proper) (hnull : name ∈ fields → x ≠ .null)
    (hsettings : name = "settings" → Settings.Explicit x) (h : v.add name (.ofJson x) = .ok v') :
    Takes (shape.toJson v) (shape.toJson v') name x := by
  rw [add] at h
  split at h
  · subst name
    exact shape.takes_nullable restores_string hx trivial (hnull (by decide)) h fun _ => ⟨rfl, rfl⟩
  split at h
  · subst name
    exact shape.takes_nullable restores_string hx trivial (hnull (by decide)) h fun _ => ⟨rfl, rfl⟩
  split at h
  · subst name
    exact shape.takes_nullable PortMap.restores_dictionary hx trivial (hnull (by decide)) h
      fun _ => ⟨rfl, rfl⟩
  split at h
  · subst name
    exact shape.takes_nullable PortMap.restores_dictionary hx trivial (hnull (by decide)) h
      fun _ => ⟨rfl, rfl⟩
  split at h
  · subst name
    exact shape.takes_nullable restores_boolean hx trivial (hnull (by decide)) h fun _ => ⟨rfl, rfl⟩
  split at h
  · subst name
    exact shape.takes_nullable restores_boolean hx trivial (hnull (by decide)) h fun _ => ⟨rfl, rfl⟩
  split at h
  · subst name
    exact shape.takes_nullable restores_boolean hx trivial (hnull (by decide)) h fun _ => ⟨rfl, rfl⟩
  split at h
  · subst name
    exact shape.takes_nullable Settings.restores_decode hx (hsettings rfl) (hnull (by decide)) h
      fun _ => ⟨rfl, rfl⟩
  · exact shape.takes_extra hx (by simp_all [fields]) h fun _ => ⟨rfl, rfl⟩

theorem restores_decode : Restores Explicit decode toJson := by
  intro d v hd hexplicit h
  obtain ⟨hfields, hsettings⟩ := hexplicit
  rw [toJson_eq]
  refine shape.reordered_of_record hd h ?_ fun _ hname => absurd hname List.not_mem_nil
  intro name x hmember hx v v' hadd
  refine takes_add hx (fun hfield hnull => hfields name hfield (hnull ▸ hmember)) ?_ hadd
  rintro rfl
  exact hsettings x hmember

end NodeValue

/-- What is read for a parent is written again: null for the top level, else the id. -/
theorem Placement.reordered_of_decode {p : Placement} (h : decode (.ofJson x) = .ok p) :
    ∃ y, p.toJson? = some y ∧ x.Reordered y := by
  cases x with
  | null =>
    cases h
    exact ⟨_, rfl, .refl _⟩
  | str s =>
    cases h
    exact ⟨_, rfl, .refl _⟩
  | _ => cases h

namespace Node

/-- The value is there, and explicit. The parent may be null: that is not the same as no parent. -/
def Explicit (d : Json) : Prop := ∃ v ∈ d.member? "value", NodeValue.Explicit v

instance (d : Json) : Decidable (Explicit d) :=
  inferInstanceAs (Decidable (∃ v ∈ d.member? "value", NodeValue.Explicit v))

namespace Entry

theorem takes_add {e e' : Entry} (hx : x.Proper) (hvalue : name = "value" → NodeValue.Explicit x)
    (h : e.add name (.ofJson x) = .ok e') : Takes (shape.toJson e) (shape.toJson e') name x := by
  rw [add] at h
  split at h
  · subst name
    exact shape.takes_read restores_string hx trivial h fun _ => ⟨rfl, rfl⟩
  split at h
  · subst name
    exact shape.takes_read NodeValue.restores_decode hx (hvalue rfl) h fun _ => ⟨rfl, rfl⟩
  split at h
  · subst name
    obtain ⟨placement, hread, h⟩ := bind_eq_ok.mp h
    cases h
    obtain ⟨y, hy, hreordered⟩ := Placement.reordered_of_decode hread
    exact shape.takes_field hreordered (by simp only [shape, hy]; rfl) rfl
  · exact shape.takes_extra hx (by simp_all [fields]) h fun _ => ⟨rfl, rfl⟩

end Entry

theorem restores_decode : Restores Explicit decode toJson := by
  intro d n hd hexplicit h
  obtain ⟨v, hvalue, hv⟩ := hexplicit
  obtain ⟨e, hread, h⟩ := bind_eq_ok.mp h
  cases h
  rw [toJson_eq]
  refine Entry.shape.reordered_of_record hd hread ?_ fun name hname => ?_
  · intro name x hmember hx e e' hadd
    refine Entry.takes_add hx ?_ hadd
    rintro rfl
    rw [hvalue, Option.some.injEq] at hmember
    exact hmember ▸ hv
  · rcases List.mem_pair.mp hname with rfl | rfl
    · exact .inl List.mem_cons_self
    · exact .inr (mem_keys_of_member? hvalue)

end Node

namespace Edge
namespace Pair

/-- The continuation mark is not null. -/
def Explicit (d : Json) : Prop := d.member? "continuation" ≠ some .null

instance (d : Json) : Decidable (Explicit d) := inferInstanceAs (Decidable (_ ≠ _))

theorem takes_add {p p' : Pair} (hx : x.Proper) (hnull : name = "continuation" → x ≠ .null)
    (h : p.add name (.ofJson x) = .ok p') : Takes (shape.toJson p) (shape.toJson p') name x := by
  rw [add] at h
  split at h
  · subst name
    exact shape.takes_read restores_string hx trivial h fun _ => ⟨rfl, rfl⟩
  split at h
  · subst name
    exact shape.takes_read restores_string hx trivial h fun _ => ⟨rfl, rfl⟩
  split at h
  · subst name
    exact shape.takes_nullable restores_boolean hx trivial (hnull rfl) h fun _ => ⟨rfl, rfl⟩
  · exact shape.takes_extra hx (by simp_all [portFields]) h fun _ => ⟨rfl, rfl⟩

theorem restores_decode : Restores Explicit decode toJson := by
  intro d p hd hexplicit h
  rw [toJson_eq]
  refine shape.reordered_of_record hd h ?_ fun _ hname => .inl hname
  intro name x hmember hx p p' hadd
  refine takes_add hx ?_ hadd
  rintro rfl hnull
  exact hexplicit (hnull ▸ hmember)

end Pair

/-- The name and the continuation marks are not null, those of the port pair included. -/
def Explicit (d : Json) : Prop :=
  (∀ name ∈ ["continuation", "name"], d.member? name ≠ some .null) ∧
    ∀ p ∈ d.member? "value", Pair.Explicit p

instance (d : Json) : Decidable (Explicit d) := inferInstanceAs (Decidable (_ ∧ _))

namespace Entry

theorem takes_add {e e' : Entry} (hx : x.Proper)
    (hnull : name ∈ ["continuation", "name"] → x ≠ .null)
    (hpair : name = "value" → Pair.Explicit x) (h : e.add name (.ofJson x) = .ok e') :
    Takes (shape.toJson e) (shape.toJson e') name x := by
  rw [add] at h
  split at h
  · subst name
    exact shape.takes_read restores_string hx trivial h fun _ => ⟨rfl, rfl⟩
  split at h
  · subst name
    exact shape.takes_read restores_string hx trivial h fun _ => ⟨rfl, rfl⟩
  split at h
  · subst name
    exact shape.takes_read Pair.restores_decode hx (hpair rfl) h fun _ => ⟨rfl, rfl⟩
  split at h
  · subst name
    exact shape.takes_nullable restores_boolean hx trivial (hnull (by decide)) h fun _ => ⟨rfl, rfl⟩
  split at h
  · subst name
    exact shape.takes_nullable restores_string hx trivial (hnull (by decide)) h fun _ => ⟨rfl, rfl⟩
  · exact shape.takes_extra hx (by simp_all [fields]) h fun _ => ⟨rfl, rfl⟩

end Entry

theorem restores_decode : Restores Explicit decode toJson := by
  intro d edge hd hexplicit h
  obtain ⟨hfields, hpair⟩ := hexplicit
  obtain ⟨e, hread, h⟩ := bind_eq_ok.mp h
  cases h
  rw [toJson_eq]
  refine Entry.shape.reordered_of_record hd hread ?_ fun _ hname => .inl hname
  intro name x hmember hx e e' hadd
  refine Entry.takes_add hx (fun hfield hnull => hfields name hfield (hnull ▸ hmember)) ?_ hadd
  rintro rfl
  exact hpair x hmember

end Edge

namespace Graph

/-- The items of the list under a key. -/
def listed (d : Json) (name : String) : Option (List Json) :=
  (d.member? name).bind fun x =>
    match x with
    | .arr items => some items
    | _ => none

/-- Nodes and edges are there and explicit, and no two nodes have one id. -/
def Explicit (d : Json) : Prop :=
  (∃ nodes ∈ listed d "nodes", (nodes.map (·.member? "id")).Nodup ∧
    ∀ n ∈ nodes, Node.Explicit n) ∧
  ∃ edges ∈ listed d "edges", ∀ e ∈ edges, Edge.Explicit e

instance (d : Json) : Decidable (Explicit d) := inferInstanceAs (Decidable (_ ∧ _))

theorem member?_of_listed {d : Json} {items : List Json} (h : items ∈ listed d name) :
    d.member? name = some (.arr items) := by
  obtain ⟨x, hx, h⟩ := Option.bind_eq_some_iff.mp h
  cases x with
  | arr xs =>
    cases h
    exact hx
  | _ => cases h

namespace Entry

theorem takes_add {e e' : Entry} (hx : x.Proper)
    (hnodes : name = "nodes" → ∀ xs, x = .arr xs → ∀ n ∈ xs, Node.Explicit n)
    (hedges : name = "edges" → ∀ xs, x = .arr xs → ∀ n ∈ xs, Edge.Explicit n)
    (h : e.add name (.ofJson x) = .ok e') : Takes (shape.toJson e) (shape.toJson e') name x := by
  rw [add] at h
  split at h
  · subst name
    exact shape.takes_read Node.restores_decode.list hx (hnodes rfl) h fun _ => ⟨rfl, rfl⟩
  split at h
  · subst name
    exact shape.takes_read Edge.restores_decode.list hx (hedges rfl) h fun _ => ⟨rfl, rfl⟩
  · exact shape.takes_extra hx (by simp_all [fields]) h fun _ => ⟨rfl, rfl⟩

/-- The nodes of a document have the ids of the entries that they were read from. -/
theorem map_id_of_reordered {ns : List Json} {nodes : List Node} (hns : ∀ n ∈ ns, n.Proper)
    (h : (Json.arr ns).Reordered (.arr (nodes.map Node.toJson))) :
    ns.map (·.member? "id") = nodes.map (fun n => some (.str n.id)) := by
  obtain ⟨hlength, hzip⟩ := h.zip
  rw [List.length_map] at hlength
  refine List.ext_getElem (by simpa using hlength) fun i hi hj => ?_
  rw [List.length_map] at hi hj
  have hpair : (ns[i], nodes[i].toJson) ∈ ns.zip (nodes.map Node.toJson) := by
    rw [List.mem_iff_getElem]
    exact ⟨i, by rw [List.length_zip, List.length_map]; omega, by simp⟩
  have hid : nodes[i].toJson.member? "id" = some (.str nodes[i].id) := rfl
  obtain ⟨a, ha, hreordered⟩ :=
    (hzip _ hpair).exists_member? (hns _ (List.getElem_mem hi)) hid
  rw [List.getElem_map, List.getElem_map, ha, hreordered.eq_str]

/-- If no two entries have one id, the graph that is built from them has them all. -/
theorem entry_toGraph {e : Entry} (h : (e.nodes.map Node.id).Nodup) : e.toGraph.entry = e := by
  have hnodes : (Table.ofList e.nodes : Table Node Node.id).toList = e.nodes :=
    Table.toList_foldl_insert .empty h
  rw [toGraph, entry, hnodes]

end Entry

variable {d : Json}

theorem Explicit.nodup_ids {e : Entry} (hd : d.Proper) (hexplicit : Explicit d)
    (h : d.Reordered (Entry.shape.toJson e)) : (e.nodes.map Node.id).Nodup := by
  obtain ⟨⟨ns, hns, hids, _⟩, _⟩ := hexplicit
  have hmember := member?_of_listed hns
  have hwritten : (Entry.shape.toJson e).member? "nodes" =
      some (.arr (e.nodes.map Node.toJson)) := rfl
  obtain ⟨x, hx, hlist⟩ := h.exists_member? hd hwritten
  rw [hmember, Option.some.injEq] at hx
  subst hx
  cases hd.of_member? hmember with
  | arr hproper =>
    rw [Entry.map_id_of_reordered hproper hlist] at hids
    have hcomp : (fun n : Node => some (Json.str n.id)) = (some ∘ Json.str) ∘ Node.id := rfl
    rw [hcomp, ← List.map_map] at hids
    exact hids.of_map _

theorem reordered_of_decode {e : Entry} (hd : d.Proper) (hexplicit : Explicit d)
    (h : Decoder.record Entry.recordType {} Entry.add (.ofJson d) = .ok e) :
    d.Reordered (Entry.shape.toJson e) := by
  obtain ⟨⟨ns, hns, _, hnodes⟩, es, hes, hedges⟩ := hexplicit
  have hns := member?_of_listed hns
  have hes := member?_of_listed hes
  refine Entry.shape.reordered_of_record hd h ?_ fun name hname => ?_
  · intro name x hmember hx e e' hadd
    refine Entry.takes_add hx ?_ ?_ hadd
    · rintro rfl xs rfl
      rw [hns] at hmember
      cases hmember
      exact hnodes
    · rintro rfl xs rfl
      rw [hes] at hmember
      cases hmember
      exact hedges
  · rcases List.mem_pair.mp hname with rfl | rfl
    · exact .inr (mem_keys_of_member? hns)
    · exact .inr (mem_keys_of_member? hes)

/-- Loading an explicit document and writing the graph again gives the same document, up to the
order of the members of objects. -/
theorem lossless {g : Graph} (hd : d.Proper) (hexplicit : Explicit d) (h : ofJson d = .ok g) :
    d.Reordered g.toJson ∧ d.alike g.toJson = true := by
  obtain ⟨e, hread, h⟩ := bind_eq_ok.mp h
  cases h
  have hreordered := reordered_of_decode hd hexplicit hread
  rw [toJson_eq, Entry.entry_toGraph (hexplicit.nodup_ids hd hreordered)]
  exact ⟨hreordered, hreordered.alike hd⟩

/-- A document with its members in an unusual order, with members of its own at every level, and
with fields that say nothing: empty maps, false flags, a parent that is null. -/
def keepsake : Json :=
  .obj [
    ("edges", .arr [.obj [
      ("name", .str "wire"), ("weight", .num (.integer 1)), ("target", .str "a"),
      ("value", .obj [("inPort", .str "i"), ("note", .null), ("outPort", .str "o"),
        ("continuation", .bool false)]),
      ("source", .str "b")]]),
    ("revision", .num (.integer 2)),
    ("nodes", .arr [
      .obj [("parent", .null), ("label", .obj [("z", .null), ("y", .arr [])]),
        ("value", .obj [("outputPorts", .obj []), ("atomic", .bool false), ("origin", .str "x"),
          ("settings", .obj [("depth", .num (.integer 0)), ("argumentOrdering", .arr [])]),
          ("inputPorts", .obj [("i", .obj [("type", .str "t")])])]),
        ("id", .str "a")],
      .obj [("value", .obj []), ("id", .str "b")]])]

theorem lossless_keepsake : ∃ g, ofJson keepsake = .ok g ∧ keepsake ≠ g.toJson ∧
    keepsake.Reordered g.toJson ∧ keepsake.alike g.toJson = true := by
  have hproper : keepsake.Proper := by simp [keepsake]
  have hsome : (ofJson keepsake).toOption.isSome = true := by decide +kernel
  obtain ⟨g, hg⟩ := Option.isSome_iff_exists.mp hsome
  have hload := eq_ok_of_toOption hg
  have horder : keepsake.keys ≠ g.toJson.keys := by simp [keepsake, Json.keys, toJson]
  exact ⟨g, hload, fun hsame => horder (congrArg Json.keys hsame),
    lossless hproper (by decide +kernel) hload⟩

end Graph
end PortNet
