import Mathlib.Data.List.Nodup
import PortNet.Change
import PortNet.Proofs.Except

namespace PortNet

/-- Where keys are distinct, no other member has the key of `x`. -/
theorem filter_eq_of_nodup_map {α κ : Type} [DecidableEq κ] {key : α → κ} {xs : List α} {x : α}
    (hnodup : (xs.map key).Nodup) (hx : x ∈ xs) :
    xs.filter (fun y => key y = key x) = [x] := by
  induction xs with
  | nil => cases hx
  | cons y ys ih =>
    obtain ⟨hy, hys⟩ := List.nodup_cons.mp hnodup
    rcases List.mem_cons.mp hx with rfl | hx
    · have hrest : ys.filter (fun z => key z = key x) = [] :=
        List.filter_eq_nil_iff.mpr fun z hz heq =>
          hy (List.mem_map.mpr ⟨z, hz, of_decide_eq_true heq⟩)
      rw [List.filter_cons_of_pos (by simp), hrest]
    · have hne : key y ≠ key x := fun heq => hy (List.mem_map.mpr ⟨x, hx, heq.symm⟩)
      rw [List.filter_cons_of_neg (by simpa using hne), ih hys hx]

namespace Table
variable {α : Type} {key : α → String}

/-- Keys are distinct, so looking a key up finds the one member that carries it. -/
theorem find?_eq_some_iff {t : Table α key} {k : String} {x : α} :
    t.find? k = some x ↔ x ∈ t.toList ∧ key x = k := by
  constructor
  · intro h
    exact ⟨List.mem_of_find?_eq_some h, by simpa using List.find?_some h⟩
  · intro hall
    obtain ⟨hx, rfl⟩ := hall
    cases hf : t.find? (key x) with
    | none => simpa using List.find?_eq_none.mp hf x hx
    | some y =>
      have hy : key y = key x := by simpa using List.find?_some hf
      have he := List.inj_on_of_nodup_map t.distinct (List.mem_of_find?_eq_some hf) hx hy
      rw [he]

theorem toList_addUntilTaken {t t' : Table α key} {xs : List α}
    (h : t.addUntilTaken xs = (t', none)) : t'.toList = t.toList ++ xs := by
  induction xs generalizing t with
  | nil =>
    cases h
    simp
  | cons x xs ih =>
    simp only [addUntilTaken] at h
    split at h
    · cases h
    · rename_i hfree
      have hnew : key x ∉ t.keys := fun hk => hfree (contains_iff.mpr hk)
      rw [ih h, toList_insert_of_not_mem hnew]
      simp

/-- Members are added up to the first one whose key is taken. -/
theorem exists_split_of_addUntilTaken {t t' : Table α key} {xs : List α} {x : α}
    (h : t.addUntilTaken xs = (t', some x)) : ∃ before after, xs = before ++ x :: after ∧
      t'.toList = t.toList ++ before ∧ key x ∈ t'.keys := by
  induction xs generalizing t with
  | nil => cases h
  | cons y ys ih =>
    rw [addUntilTaken] at h
    split at h
    · rename_i htaken
      cases h
      exact ⟨[], ys, rfl, (List.append_nil _).symm, contains_iff.mp htaken⟩
    · rename_i hfree
      have hnew : key y ∉ t.keys := fun hk => hfree (contains_iff.mpr hk)
      obtain ⟨before, after, rfl, hlist, htaken⟩ := ih h
      rw [toList_insert_of_not_mem hnew, List.append_assoc] at hlist
      exact ⟨y :: before, after, rfl, hlist, htaken⟩

end Table

@[simp] theorem Dictionary.isSome_get? {β : Type} {d : Dictionary β} {name : String} :
    (d.get? name).isSome = d.contains name := by
  rw [get?, Option.isSome_map, Table.find?, List.isSome_find?]
  rfl

namespace Node

/-- The ports that a node declares on one side. -/
def portsOn (n : Node) (side : Side) : List Port := (n.value.ports side).keys.map (Port.mk n.id)

theorem node_of_mem_portsOn {n : Node} {side : Side} {p : Port} (h : p ∈ n.portsOn side) :
    p.node = n.id := by
  obtain ⟨name, _, rfl⟩ := List.mem_map.mp h
  rfl

theorem nodup_portsOn (n : Node) (side : Side) : (n.portsOn side).Nodup :=
  (n.value.ports side).distinct.map (fun _ _ he => (Port.mk.inj he).2)

/-- Nodes with different ids have no port in common. -/
theorem nodup_flatMap_portsOn {nodes : List Node} (h : (nodes.map id).Nodup) (side : Side) :
    (nodes.flatMap (fun n => n.portsOn side)).Nodup := by
  induction nodes with
  | nil => exact List.nodup_nil
  | cons n nodes ih =>
    obtain ⟨hn, hs⟩ := List.nodup_cons.mp h
    rw [List.flatMap_cons]
    refine List.nodup_append.mpr ⟨n.nodup_portsOn side, ih hs, ?_⟩
    intro p hp q hq heq
    subst heq
    obtain ⟨m, hm, hpm⟩ := List.mem_flatMap.mp hq
    exact hn (List.mem_map.mpr
      ⟨m, hm, (node_of_mem_portsOn hpm).symm.trans (node_of_mem_portsOn hp)⟩)

end Node

def Batch.ids (b : Batch) : List NodeId := b.nodes.map Node.id

namespace Graph

def ids (g : Graph) : List NodeId := g.nodes.toList.map Node.id

theorem contains_iff {g : Graph} {id : NodeId} :
    g.contains id = true ↔ ∃ n ∈ g.nodes.toList, n.id = id := by
  simp [contains, Table.contains]

theorem contains_iff_mem_ids {g : Graph} {id : NodeId} : g.contains id = true ↔ id ∈ g.ids := by
  rw [contains_iff, ids, List.mem_map]

theorem node?_eq_some_iff {g : Graph} {id : NodeId} {n : Node} :
    g.node? id = some n ↔ n ∈ g.nodes.toList ∧ n.id = id :=
  Table.find?_eq_some_iff

theorem node?_of_mem {g : Graph} {n : Node} (h : n ∈ g.nodes.toList) : g.node? n.id = some n :=
  node?_eq_some_iff.mpr ⟨h, rfl⟩

theorem contains_iff_node? {g : Graph} {id : NodeId} :
    g.contains id = true ↔ ∃ n, g.node? id = some n := by
  simp only [contains_iff, node?_eq_some_iff]

end Graph

/-- What every pass does to a graph: some edges are taken out, the others stay in their order, and a
batch of nodes and edges is added at the end. -/
structure Revision (g g' : Graph) (keep : Edge → Bool) (batch : Batch) : Prop where
  nodes : g'.nodes.toList = g.nodes.toList ++ batch.nodes
  edges : g'.edges = g.edges.filter keep ++ batch.edges
  extras : g'.extras = g.extras

namespace Revision
variable {g g' g'' : Graph} {keep keep' : Edge → Bool} {batch batch' : Batch}

theorem refl (g : Graph) : Revision g g (fun _ => true) {} :=
  ⟨(List.append_nil _).symm, by simp, rfl⟩

theorem eq_of_empty (h : Revision g g' (fun _ => true) {}) : g' = g := by
  obtain ⟨⟨nodes, _⟩, edges, extras⟩ := g
  obtain ⟨⟨nodes', _⟩, edges', extras'⟩ := g'
  obtain ⟨hn, he, hx⟩ := h
  simp only [List.append_nil, List.filter_true] at hn he hx
  subst hn he hx
  rfl

theorem mem_nodes_iff (h : Revision g g' keep batch) {n : Node} :
    n ∈ g'.nodes.toList ↔ n ∈ g.nodes.toList ∨ n ∈ batch.nodes := by
  rw [h.nodes, List.mem_append]

theorem mem_edges_iff (h : Revision g g' keep batch) {e : Edge} :
    e ∈ g'.edges ↔ (e ∈ g.edges ∧ keep e = true) ∨ e ∈ batch.edges := by
  rw [h.edges, List.mem_append, List.mem_filter]

theorem ids_eq (h : Revision g g' keep batch) : g'.ids = g.ids ++ batch.ids := by
  rw [Graph.ids, h.nodes, List.map_append]
  rfl

theorem nodup_ids (h : Revision g g' keep batch) : (g.ids ++ batch.ids).Nodup := by
  rw [← h.ids_eq]
  exact g'.nodes.distinct

/-- Two nodes of a batch never share an id. -/
theorem nodup_batch (h : Revision g g' keep batch) : batch.ids.Nodup :=
  (List.nodup_append.mp h.nodup_ids).2.1

/-- No node of a batch has the id of an old node. -/
theorem fresh (h : Revision g g' keep batch) {n : Node} (hn : n ∈ batch.nodes) :
    g.contains n.id ≠ true := by
  intro hc
  obtain ⟨m, hm, he⟩ := Graph.contains_iff.mp hc
  have hdisjoint := (List.nodup_append.mp h.nodup_ids).2.2
  exact hdisjoint _ (List.mem_map.mpr ⟨m, hm, rfl⟩) _ (List.mem_map.mpr ⟨n, hn, rfl⟩) he

theorem contains_iff (h : Revision g g' keep batch) {id : NodeId} :
    g'.contains id = true ↔ g.contains id = true ∨ ∃ n ∈ batch.nodes, n.id = id := by
  simp only [Graph.contains_iff, h.mem_nodes_iff, or_and_right, exists_or]

theorem contains_of_contains (h : Revision g g' keep batch) {id : NodeId}
    (hc : g.contains id = true) : g'.contains id = true :=
  h.contains_iff.mpr (.inl hc)

theorem node?_of_contains (h : Revision g g' keep batch) {id : NodeId}
    (hc : g.contains id = true) : g'.node? id = g.node? id := by
  obtain ⟨n, hn⟩ := Graph.contains_iff_node?.mp hc
  obtain ⟨hm, he⟩ := Graph.node?_eq_some_iff.mp hn
  rw [hn]
  exact Graph.node?_eq_some_iff.mpr ⟨h.mem_nodes_iff.mpr (.inl hm), he⟩

theorem node?_of_mem_batch (h : Revision g g' keep batch) {n : Node} (hn : n ∈ batch.nodes) :
    g'.node? n.id = some n :=
  Graph.node?_of_mem (h.mem_nodes_iff.mpr (.inr hn))

/-- Ports of new nodes never clash with ports of old ones, nor with each other. -/
theorem nodup_append_ports (h : Revision g g' keep batch) {ports : List Port}
    (hold : ∀ p ∈ ports, g.contains p.node = true) (side : Side) :
    (ports ++ batch.nodes.flatMap (fun n => n.portsOn side)).Nodup ↔ ports.Nodup := by
  constructor
  · exact fun hall => (List.nodup_append.mp hall).1
  · intro hports
    refine List.nodup_append.mpr
      ⟨hports, Node.nodup_flatMap_portsOn h.nodup_batch side, ?_⟩
    intro p hp q hq heq
    subst heq
    obtain ⟨n, hn, hq⟩ := List.mem_flatMap.mp hq
    have hc := hold p hp
    rw [Node.node_of_mem_portsOn hq] at hc
    exact h.fresh hn hc

/-- The edges of an earlier batch pass through the filter of a later revision. -/
theorem trans (h : Revision g g' keep batch) (h' : Revision g' g'' keep' batch') :
    Revision g g'' (fun e => keep e && keep' e)
      ⟨batch.nodes ++ batch'.nodes, batch.edges.filter keep' ++ batch'.edges⟩ where
  nodes := by rw [h'.nodes, h.nodes, List.append_assoc]
  edges := by
    rw [h'.edges, h.edges, List.filter_append, List.filter_filter, List.append_assoc]
    simp only [Bool.and_comm]
  extras := h'.extras.trans h.extras

end Revision

namespace Graph

theorem addNew_none {g g' : Graph} {nodes : List Node} (h : g.addNew nodes = (g', none)) :
    g'.nodes.toList = g.nodes.toList ++ nodes ∧ g'.edges = g.edges ∧ g'.extras = g.extras := by
  simp only [addNew, Prod.mk.injEq, Option.map_eq_none_iff] at h
  obtain ⟨rfl, hnone⟩ := h
  exact ⟨Table.toList_addUntilTaken (Prod.ext rfl hnone), rfl, rfl⟩

/-- The id of a node is taken once all nodes before it have been added, whose own ids were free. -/
structure Blocked (g : Graph) (before : List Node) (n : Node) : Prop where
  free : (g.ids ++ before.map Node.id).Nodup
  taken : n.id ∈ g.ids ++ before.map Node.id

theorem Blocked.not_nodup {g : Graph} {before after : List Node} {n : Node}
    (h : g.Blocked before n) : ¬ (g.ids ++ (before ++ n :: after).map Node.id).Nodup := by
  rw [List.map_append, ← List.append_assoc]
  exact fun hnodup => (List.nodup_append.mp hnodup).2.2 _ h.taken _ List.mem_cons_self rfl

/-- Adding nodes is stopped by the first of them whose id is taken, and those before it stay. -/
theorem addNew_blocked {g g' : Graph} {nodes : List Node} {problem : Problem}
    (h : g.addNew nodes = (g', some problem)) :
    ∃ before n after, nodes = before ++ n :: after ∧ problem = .idInUse n.id ∧
      g.Blocked before n ∧ Revision g g' (fun _ => true) ⟨before, []⟩ := by
  simp only [addNew, Prod.mk.injEq, Option.map_eq_some_iff] at h
  obtain ⟨rfl, n, hn, rfl⟩ := h
  obtain ⟨before, after, hsplit, hlist, htaken⟩ :=
    Table.exists_split_of_addUntilTaken (Prod.ext rfl hn)
  have hrevision : Revision g { g with nodes := (g.nodes.addUntilTaken nodes).1 }
      (fun _ => true) ⟨before, []⟩ := ⟨hlist, by simp, rfl⟩
  refine ⟨before, n, after, hsplit, rfl, ⟨hrevision.nodup_ids, ?_⟩, hrevision⟩
  have hids := hrevision.ids_eq
  rw [Batch.ids] at hids
  rw [← hids]
  exact htaken

/-- Nodes can be added unless two ids are the same. -/
theorem addNew_some {g g' : Graph} {nodes : List Node} {p : Problem}
    (h : g.addNew nodes = (g', some p)) :
    ∃ id, p = .idInUse id ∧ ¬ (g.ids ++ nodes.map Node.id).Nodup := by
  obtain ⟨before, n, after, rfl, rfl, hblocked, _⟩ := addNew_blocked h
  exact ⟨n.id, rfl, hblocked.not_nodup⟩

/-- The edges that stay when the data edges on some routes are removed. -/
def offRoutes (routes : List Route) (e : Edge) : Bool :=
  !(!e.isContinuation && routes.contains e.route)

/-- Looking through new nodes for a clash finds none exactly if all ids are different. -/
theorem clash?_eq_none {g : Graph} {met : List NodeId} {nodes : List Node} :
    g.clash? met nodes = none ↔
      (∀ n ∈ nodes, g.contains n.id = false ∧ n.id ∉ met) ∧ (nodes.map Node.id).Nodup := by
  induction nodes generalizing met with
  | nil => simp [clash?]
  | cons n nodes ih =>
    have hstep : g.clash? met (n :: nodes) = none ↔
        (g.contains n.id = false ∧ n.id ∉ met) ∧ g.clash? (n.id :: met) nodes = none := by
      rw [clash?]
      cases hc : g.contains n.id <;> cases hm : met.contains n.id <;> simp_all
    rw [hstep, ih, List.map_cons, List.nodup_cons, List.forall_mem_cons]
    constructor
    · intro hall
      obtain ⟨hn, hnodes, hnodup⟩ := hall
      refine ⟨⟨hn, fun m hm => ⟨(hnodes m hm).1, ?_⟩⟩, fun hm => ?_, hnodup⟩
      · exact fun hmet => (hnodes m hm).2 (List.mem_cons_of_mem _ hmet)
      · obtain ⟨m, hm, hid⟩ := List.mem_map.mp hm
        exact (hnodes m hm).2 (hid ▸ List.mem_cons_self)
    · intro hall
      obtain ⟨⟨hn, hnodes⟩, hnew, hnodup⟩ := hall
      refine ⟨hn, fun m hm => ⟨(hnodes m hm).1, fun hmet => ?_⟩, hnodup⟩
      rcases List.mem_cons.mp hmet with hid | hmet
      · exact hnew (List.mem_map.mpr ⟨m, hm, hid⟩)
      · exact (hnodes m hm).2 hmet

theorem clash?_nil_eq_none {g : Graph} {nodes : List Node} :
    g.clash? [] nodes = none ↔ (g.ids ++ nodes.map Node.id).Nodup := by
  have hfresh : (∀ n ∈ nodes, g.contains n.id = false ∧ n.id ∉ []) ↔
      ∀ a ∈ g.ids, ∀ b ∈ nodes.map Node.id, a ≠ b := by
    simp only [List.not_mem_nil, not_false_eq_true, and_true, Bool.eq_false_iff, ne_eq,
      contains_iff, ids, List.forall_mem_map]
    grind
  have hids : g.ids.Nodup := g.nodes.distinct
  rw [clash?_eq_none, hfresh, List.nodup_append, and_iff_right hids, and_comm]

/-- Once the ids of a batch have been looked at, all its nodes can be added. -/
theorem addNew_of_clash?_eq_none {g : Graph} {nodes : List Node} (h : g.clash? [] nodes = none)
    (drop : Edge → Bool) : ((g.dropEdges drop).addNew nodes).2 = none := by
  cases hadd : (g.dropEdges drop).addNew nodes with
  | mk left clash =>
    cases clash with
    | none => rfl
    | some problem =>
      obtain ⟨_, _, htaken⟩ := addNew_some hadd
      exact absurd (clash?_nil_eq_none.mp h) htaken

theorem revision_replaceRoutes {g : Graph} {routes : List Route} {batch : Batch} {c : Change}
    (h : (g.replaceRoutes routes batch).result = .ok c) :
    Revision g (g.replaceRoutes routes batch).graph (offRoutes routes) batch := by
  unfold replaceRoutes at h ⊢
  split at h
  · cases h
  · dsimp only at h ⊢
    split at h
    · cases h
    · rename_i extended ha
      obtain ⟨hn, he, hx⟩ := addNew_none ha
      exact ⟨hn, by rw [he]; rfl, hx⟩

/-- Replacing routes is stopped by an id only, and then leaves the graph as it was. -/
theorem replaceRoutes_error {g : Graph} {routes : List Route} {batch : Batch} {p : Problem}
    (h : (g.replaceRoutes routes batch).result = .error p) :
    (g.replaceRoutes routes batch).graph = g ∧
      ∃ id, p = .idInUse id ∧ ¬ (g.ids ++ batch.ids).Nodup := by
  unfold replaceRoutes at h ⊢
  split at h
  · rename_i n hclash
    cases h
    refine ⟨rfl, n.id, rfl, fun hnodup => ?_⟩
    rw [clash?_nil_eq_none.mpr hnodup] at hclash
    cases hclash
  · rename_i hclash
    have hnone := addNew_of_clash?_eq_none hclash
      (fun e => !e.isContinuation && routes.contains e.route)
    dsimp only at h
    split at h
    · rename_i left problem ha
      rw [ha] at hnone
      cases hnone
    · cases h

end Graph
end PortNet
