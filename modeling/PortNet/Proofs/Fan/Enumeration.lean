import Mathlib.Data.List.Induction
import PortNet.Proofs.EdgeIndex
import PortNet.Proofs.Fan.Detection

namespace PortNet

section Distinct
variable {α β : Type} [DecidableEq α] [DecidableEq β]

theorem distinct_map {f : α → β} (hf : Function.Injective f) (xs : List α) :
    distinct (xs.map f) = (distinct xs).map f := by
  induction xs with
  | nil => rfl
  | cons x xs ih =>
    rw [List.map_cons, distinct, distinct, ih, List.map_cons, List.filter_map]
    congr 2
    apply List.filter_congr
    intro y _
    simp [hf.eq_iff]

/-- A member at the end is new, or it has been met. -/
theorem distinct_concat (xs : List α) (x : α) :
    distinct (xs ++ [x]) = if x ∈ xs then distinct xs else distinct xs ++ [x] := by
  induction xs with
  | nil => rfl
  | cons y ys ih =>
    rw [List.cons_append, distinct, ih, distinct]
    by_cases hxy : x = y
    · subst hxy
      by_cases hx : x ∈ ys <;> simp [hx]
    · by_cases hx : x ∈ ys <;> simp [hx, hxy]

/-- Members stand in the order in which they first appear. -/
theorem pairwise_idxOf_distinct (xs : List α) :
    (distinct xs).Pairwise (fun x y => xs.idxOf x < xs.idxOf y) := by
  induction xs with
  | nil => exact List.Pairwise.nil
  | cons x xs ih =>
    rw [distinct, List.pairwise_cons]
    constructor
    · intro y hy
      have hne : y ≠ x := by simpa using (List.mem_filter.mp hy).2
      simp [List.idxOf_cons_ne _ hne.symm]
    · refine List.Pairwise.imp_of_mem ?_ (ih.filter _)
      intro y z hy hz hlt
      have hyne : y ≠ x := by simpa using (List.mem_filter.mp hy).2
      have hzne : z ≠ x := by simpa using (List.mem_filter.mp hz).2
      rw [List.idxOf_cons_ne _ hyne.symm, List.idxOf_cons_ne _ hzne.symm]
      exact Nat.succ_lt_succ hlt

/-- What comes first among the members that pass a test comes first in the whole list. -/
theorem idxOf_lt_of_filter {p : α → Bool} {xs : List α} {x y : α} (hx : p x = true)
    (hy : p y = true) (h : (xs.filter p).idxOf x < (xs.filter p).idxOf y) :
    xs.idxOf x < xs.idxOf y := by
  induction xs with
  | nil => simp at h
  | cons z zs ih =>
    by_cases hxz : z = x
    · subst hxz
      have hyz : z ≠ y := by
        rintro rfl
        exact Nat.lt_irrefl _ h
      simp [List.idxOf_cons_ne _ hyz]
    · have hyz : z ≠ y := by
        rintro rfl
        simp [hy] at h
      rw [List.idxOf_cons_ne _ hxz, List.idxOf_cons_ne _ hyz]
      refine Nat.succ_lt_succ (ih ?_)
      by_cases hz : p z = true
      · rw [List.filter_cons_of_pos hz, List.idxOf_cons_ne _ hxz, List.idxOf_cons_ne _ hyz] at h
        exact Nat.lt_of_succ_lt_succ h
      · rwa [List.filter_cons_of_neg hz] at h

end Distinct

/-- Where the keys of some entries are distinct, a new value goes to its key or to the end. -/
theorem upsert_map {β : Type} {value : String → β} {keys : List String} (hkeys : keys.Nodup)
    (k : String) (v : β) :
    upsert Prod.fst (k, v) (keys.map (fun key => (key, value key))) =
      (if k ∈ keys then keys else keys ++ [k]).map
        (fun key => (key, if key = k then v else value key)) := by
  induction keys with
  | nil => simp [upsert]
  | cons key keys ih =>
    obtain ⟨hkey, hrest⟩ := List.nodup_cons.mp hkeys
    rw [List.map_cons, upsert]
    by_cases hk : key = k
    · subst hk
      have hsame : keys.map (fun other => (other, if other = key then v else value other)) =
          keys.map (fun other => (other, value other)) := by
        apply List.map_congr_left
        intro other hother
        have hne : other ≠ key := fun heq => hkey (heq ▸ hother)
        rw [if_neg hne]
      simp [hsame]
    · rw [if_neg hk, ih hrest]
      by_cases hmem : k ∈ keys <;> simp [hmem, hk, Ne.symm hk]

/-- Looking up a key in a table of keys and their values. -/
theorem Dictionary.get?_of_toList {β : Type} {value : String → β} {keys : List String}
    {entries : Dictionary β} (h : entries.toList = keys.map (fun key => (key, value key)))
    (k : String) : entries.get? k = if k ∈ keys then some (value k) else none := by
  by_cases hk : k ∈ keys
  · have hfind : entries.find? k = some (k, value k) :=
      Table.find?_eq_some_iff.mpr ⟨h ▸ List.mem_map.mpr ⟨k, hk, rfl⟩, rfl⟩
    rw [get?, hfind, if_pos hk, Option.map_some]
  · have hfind : entries.find? k = none := by
      rw [Table.find?, h, List.find?_eq_none]
      intro entry hentry
      obtain ⟨key, hkey, rfl⟩ := List.mem_map.mp hentry
      simpa using fun heq : key = k => hk (heq ▸ hkey)
    rw [get?, hfind, if_neg hk, Option.map_none]

namespace Direction

/-- Files the far end of an edge under the name of its near end. -/
def file (d : Direction) (groups : Dictionary (List Port)) (e : Edge) : Dictionary (List Port) :=
  groups.put (d.near e).name ((groups.get? (d.near e).name).getD [] ++ [d.far e])

/-- The far ends of some edges in groups, one for each name of a near end, in the order in which the
names come up. -/
def groups (d : Direction) (edges : List Edge) : Dictionary (List Port) :=
  edges.foldl d.file Table.empty

/-- The names of the near ends of some edges, each in the place where it first appears. -/
def names (d : Direction) (edges : List Edge) : List PortName :=
  distinct (edges.map (fun e => (d.near e).name))

/-- The far ends of the edges whose near end has a given name. -/
def peersAt (d : Direction) (edges : List Edge) (name : PortName) : List Port :=
  (edges.filter (fun e => (d.near e).name = name)).map d.far

theorem names_concat (d : Direction) (edges : List Edge) (e : Edge) : d.names (edges ++ [e]) =
    if (d.near e).name ∈ d.names edges then d.names edges
    else d.names edges ++ [(d.near e).name] := by
  rw [names, List.map_append, List.map_cons, List.map_nil, distinct_concat]
  simp only [names, mem_distinct]

theorem peersAt_concat (d : Direction) (edges : List Edge) (e : Edge) (name : PortName) :
    d.peersAt (edges ++ [e]) name = if name = (d.near e).name then
      d.peersAt edges (d.near e).name ++ [d.far e] else d.peersAt edges name := by
  by_cases hname : name = (d.near e).name
  · simp [peersAt, hname]
  · simp [peersAt, hname, Ne.symm hname]

theorem peersAt_eq_nil {d : Direction} {edges : List Edge} {name : PortName}
    (h : name ∉ d.names edges) : d.peersAt edges name = [] := by
  rw [names, mem_distinct, List.mem_map] at h
  rw [peersAt, List.map_eq_nil_iff, List.filter_eq_nil_iff]
  intro e he hname
  exact h ⟨e, he, of_decide_eq_true hname⟩

/-- Filing edges one after another gives each name the peers that a look at all edges gives it. -/
theorem toList_groups (d : Direction) (edges : List Edge) :
    (d.groups edges).toList = (d.names edges).map (fun name => (name, d.peersAt edges name)) := by
  induction edges using List.reverseRecOn with
  | nil => rfl
  | append_singleton edges e ih =>
    have hnodup : (d.names edges).Nodup := nodup_distinct _
    have hget : ((d.groups edges).get? (d.near e).name).getD [] =
        d.peersAt edges (d.near e).name := by
      rw [Dictionary.get?_of_toList ih]
      split
      · rfl
      · rename_i hname
        exact (peersAt_eq_nil hname).symm
    have hstep : (d.groups (edges ++ [e])).toList = upsert Prod.fst
        ((d.near e).name, ((d.groups edges).get? (d.near e).name).getD [] ++ [d.far e])
        (d.groups edges).toList := by
      rw [groups, List.foldl_append]
      rfl
    rw [hstep, hget, ih, upsert_map hnodup, names_concat]
    apply List.map_congr_left
    intro name _
    rw [peersAt_concat]

end Direction

namespace Graph

/-- Fan detection in one walk over the edges that an index finds at each node: the data edges among
them are filed under their ports, and the groups of two or more become bundles. -/
def detect (g : Graph) (index : EdgeIndex) (d : Direction) : List Bundle :=
  g.nodes.toList.flatMap (fun n =>
    (d.groups ((index.edgesAt g d n.id).filter (fun e => !e.isContinuation))).toList.filterMap
      (fun (name, peers) =>
        if h : 2 ≤ peers.length then
          some ⟨d, ⟨n.id, name⟩, g.portType? ⟨n.id, name⟩ d.side, peers, h⟩
        else none))

/-- The place of a port among the ports at which data edges have their near ends: nodes in their
order, and the ports of a node in the order in which data edges first meet them. -/
def Precedes (g : Graph) (d : Direction) (p q : Port) : Prop :=
  g.ids.idxOf p.node < g.ids.idxOf q.node ∨
    (p.node = q.node ∧ (g.nearEnds d).idxOf p < (g.nearEnds d).idxOf q)

/-- A list of exactly the fans of a graph: one bundle for each port of a node at which two or more
data edges have their near ends, with the far ends of these edges in their order. -/
structure Fans (g : Graph) (d : Direction) (bundles : List Bundle) : Prop where
  once : ∀ p, (bundles.map Bundle.anchor).count p =
    if g.contains p.node = true ∧ 2 ≤ (g.dataEdges.filter (fun e => d.near e = p)).length
    then 1 else 0
  peers : ∀ b ∈ bundles, b.direction = d ∧ b.type? = g.portType? b.anchor d.side ∧
    b.peers = (g.dataEdges.filter (fun e => d.near e = b.anchor)).map d.far
  order : (bundles.map Bundle.anchor).Pairwise (g.Precedes d)

variable {g : Graph} {d : Direction} {p q : Port} {b : Bundle} {bs : List Bundle}

theorem filter_edgesAt_build (g : Graph) (d : Direction) (node : NodeId) :
    ((EdgeIndex.build g).edgesAt g d node).filter (fun e => !e.isContinuation) =
      g.dataEdgesAt d node := by
  rw [EdgeIndex.edgesAt_build, List.filter_filter, dataEdgesAt]

/-- Among the edges at a node the ports are told apart by their names. -/
theorem map_near_dataEdgesAt (g : Graph) (d : Direction) (node : NodeId) :
    (g.dataEdgesAt d node).map d.near =
      ((g.dataEdgesAt d node).map (fun e => (d.near e).name)).map (Port.mk node) := by
  rw [List.map_map]
  apply List.map_congr_left
  intro e he
  rw [Function.comp_apply, ← near_of_mem_dataEdgesAt he]

theorem peersAt_dataEdgesAt (g : Graph) (d : Direction) (node : NodeId) (name : PortName) :
    d.peersAt (g.dataEdgesAt d node) name =
      ((g.dataEdgesAt d node).filter (fun e => d.near e = ⟨node, name⟩)).map d.far := by
  rw [Direction.peersAt]
  congr 1
  apply List.filter_congr
  intro e he
  have hnode := near_of_mem_dataEdgesAt he
  rw [decide_eq_decide]
  constructor
  · rintro rfl
    rw [← hnode]
  · intro heq
    rw [heq]

/-- Detection by way of an index finds the bundles that a look at all edges finds. -/
theorem detect_build (g : Graph) (d : Direction) :
    g.detect (EdgeIndex.build g) d = g.bundles d := by
  refine List.flatMap_congr fun n _ => ?_
  have hinj : Function.Injective (Port.mk n.id) := fun _ _ heq => (Port.mk.inj heq).2
  rw [filter_edgesAt_build, Direction.toList_groups, List.filterMap_map, bundlesAt,
    map_near_dataEdgesAt, distinct_map hinj, List.filterMap_map]
  apply List.filterMap_congr
  intro name _
  simp only [Function.comp_apply, bundleAt?, peersAt_dataEdgesAt]

theorem length_filter_near :
    (g.dataEdges.filter (fun e => d.near e = p)).length = (g.nearEnds d).count p := by
  rw [← map_near_dataEdges, List.count, List.countP_map, List.countP_eq_length_filter]
  rfl

theorem map_near_dataEdgesAt_eq_filter (g : Graph) (d : Direction) (node : NodeId) :
    (g.dataEdgesAt d node).map d.near = (g.nearEnds d).filter (fun p => p.node = node) := by
  rw [← map_near_dataEdges, List.filter_map, dataEdges, List.filter_filter, dataEdgesAt]
  simp only [Function.comp_def, Bool.and_comm]

theorem pairwise_idxOf_ids (g : Graph) :
    g.nodes.toList.Pairwise (fun m n => g.ids.idxOf m.id < g.ids.idxOf n.id) := by
  have hnodup : g.ids.Nodup := g.nodes.distinct
  have hids : g.ids.Pairwise (fun a b => g.ids.idxOf a < g.ids.idxOf b) := by
    refine List.pairwise_iff_getElem.mpr fun i j hi hj hlt => ?_
    rwa [hnodup.idxOf_getElem, hnodup.idxOf_getElem]
  have hnodes : (g.nodes.toList.map Node.id).Pairwise
      (fun a b => g.ids.idxOf a < g.ids.idxOf b) := hids
  rwa [List.pairwise_map] at hnodes

/-- Bundles come in the order of nodes and, at one node, in the order in which their ports first
appear. -/
theorem precedes_bundles (g : Graph) (d : Direction) :
    ((g.bundles d).map Bundle.anchor).Pairwise (g.Precedes d) := by
  rw [bundles, List.map_flatMap, List.pairwise_flatMap]
  constructor
  · intro n _
    have hfirst := (pairwise_idxOf_distinct ((g.dataEdgesAt d n.id).map d.near)).filter (g.shared d)
    rw [← map_anchor_bundlesAt] at hfirst
    refine hfirst.imp_of_mem fun hp hq hlt => .inr ?_
    have hpn := node_of_mem_anchorsAt hp
    have hqn := node_of_mem_anchorsAt hq
    rw [map_near_dataEdgesAt_eq_filter] at hlt
    exact ⟨hpn.trans hqn.symm,
      idxOf_lt_of_filter (decide_eq_true hpn) (decide_eq_true hqn) hlt⟩
  · refine (pairwise_idxOf_ids g).imp fun hlt p hp q hq => .inl ?_
    rwa [node_of_mem_anchorsAt hp, node_of_mem_anchorsAt hq]

theorem fans_bundles (g : Graph) (d : Direction) : g.Fans d (g.bundles d) where
  once p := by
    rw [nodup_anchors.count]
    simp only [mem_anchors, shared_iff, length_filter_near]
  peers b hb := by
    obtain ⟨_, hd, ht, hpeers⟩ := mem_bundles.mp hb
    exact ⟨hd, ht, hpeers.trans (map_farEnd_routesAt g d b.anchor)⟩
  order := precedes_bundles g d

theorem Precedes.asymm (h : g.Precedes d p q) : ¬ g.Precedes d q p := by
  rintro (hback | ⟨hnode, hback⟩)
  · rcases h with hlt | ⟨hnode, _⟩
    · omega
    · rw [hnode] at hback
      omega
  · rcases h with hlt | ⟨_, hlt⟩
    · rw [hnode] at hlt
      omega
    · omega

theorem Fans.bundleAt? (h : g.Fans d bs) (hb : b ∈ bs) :
    g.bundleAt? d (g.dataEdgesAt d b.anchor.node) b.anchor = some b := by
  obtain ⟨hd, ht, hpeers⟩ := h.peers b hb
  exact bundleAt?_eq_some.mpr ⟨hd, rfl, ht, hpeers.trans (map_farEnd_routesAt g d b.anchor).symm⟩

/-- The ports, their order and their edges leave nothing open. -/
theorem Fans.unique (h : g.Fans d bs) {bs' : List Bundle} (h' : g.Fans d bs') : bs = bs' := by
  have hperm : (bs.map Bundle.anchor).Perm (bs'.map Bundle.anchor) :=
    List.perm_iff_count.mpr fun p => (h.once p).trans (h'.once p).symm
  have hanchors : bs.map Bundle.anchor = bs'.map Bundle.anchor :=
    hperm.eq_of_pairwise (fun _ _ _ _ hpq hqp => absurd hqp hpq.asymm) h.order h'.order
  have hsome : ∀ {bundles : List Bundle}, g.Fans d bundles → bundles.map some =
      (bundles.map Bundle.anchor).map (fun p => g.bundleAt? d (g.dataEdgesAt d p.node) p) := by
    intro bundles hfans
    rw [List.map_map]
    exact List.map_congr_left fun b hb => (hfans.bundleAt? hb).symm
  have hsame : bs.map some = bs'.map some := by rw [hsome h, hsome h', hanchors]
  exact List.map_injective_iff.mpr (fun _ _ => Option.some.inj) hsame

/-- Fan detection finds exactly the fans, whether it looks at all edges or uses an index. The
bundles of one direction take up exactly the data edges that have their near end at a node of the
graph and share it with another data edge, each edge once. -/
theorem fans_iff_bundles (g : Graph) (d : Direction) :
    (∀ bundles, g.Fans d bundles ↔ bundles = g.bundles d) ∧
      g.detect (EdgeIndex.build g) d = g.bundles d ∧
      ((g.bundles d).flatMap Bundle.routes).Perm ((g.dataEdges.filter (fun e =>
        g.contains (d.near e).node && g.shared d (d.near e))).map Edge.route) := by
  refine ⟨fun bundles => ⟨fun h => h.unique (fans_bundles g d), ?_⟩, detect_build g d, ?_⟩
  · rintro rfl
    exact fans_bundles g d
  · have hroutes := perm_routes_bundles g d
    rw [dataRoutes, List.filter_map] at hroutes
    simpa only [Function.comp_def, Direction.nearEnd_route] using hroutes

end Graph
end PortNet
