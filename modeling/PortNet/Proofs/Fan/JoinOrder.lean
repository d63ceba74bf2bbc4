import PortNet.Proofs.Fan.Reordering
import PortNet.Proofs.Fan.Routing
import PortNet.Proofs.Fan.Trails

namespace PortNet

/-- What is at position `k` of a filtered list stands in the list behind `k` others that pass. -/
theorem getElem?_filter_iff {α : Type} {p : α → Bool} {xs : List α} {k : Nat} {x : α} :
    (xs.filter p)[k]? = some x ↔
      ∃ i, xs[i]? = some x ∧ p x = true ∧ (xs.take i).countP p = k := by
  induction xs generalizing k with
  | nil => simp
  | cons y ys ih =>
    by_cases hy : p y = true
    · rw [List.filter_cons_of_pos hy]
      cases k with
      | zero =>
        rw [List.getElem?_cons_zero, Option.some.injEq]
        constructor
        · rintro rfl
          exact ⟨0, rfl, hy, rfl⟩
        · rintro ⟨i, hi, _, hk⟩
          cases i with
          | zero => exact Option.some.inj hi
          | succ i => simp [List.take_succ_cons, hy] at hk
      | succ k =>
        rw [List.getElem?_cons_succ, ih]
        constructor
        · rintro ⟨i, hi, hx, hk⟩
          exact ⟨i + 1, hi, hx, by simp [List.take_succ_cons, hy, hk]⟩
        · rintro ⟨i, hi, hx, hk⟩
          cases i with
          | zero => cases hk
          | succ i => exact ⟨i, hi, hx, by simpa [List.take_succ_cons, hy] using hk⟩
    · rw [List.filter_cons_of_neg hy, ih]
      constructor
      · rintro ⟨i, hi, hx, hk⟩
        exact ⟨i + 1, hi, hx, by simp [List.take_succ_cons, hy, hk]⟩
      · rintro ⟨i, hi, hx, hk⟩
        cases i with
        | zero =>
          rw [List.getElem?_cons_zero, Option.some.injEq] at hi
          exact absurd (hi ▸ hx) hy
        | succ i => exact ⟨i, hi, hx, by simpa [List.take_succ_cons, hy] using hk⟩

/-- Of the copies of `x` in a list, the one that comes after `k` others stands at position `i`. -/
def OccursAt {α : Type} [DecidableEq α] (xs : List α) (x : α) (k i : Nat) : Prop :=
  xs[i]? = some x ∧ (xs.take i).count x = k

namespace OccursAt
variable {α β : Type} [DecidableEq α] {xs : List α} {x : α} {k i : Nat}

theorem lt_count (h : OccursAt xs x k i) : k < xs.count x := by
  obtain ⟨hi, rfl⟩ := h
  have htake : (xs.take (i + 1)).count x = (xs.take i).count x + 1 := by
    rw [List.take_add_one, hi, List.count_append]
    simp
  have hle := (List.take_sublist (i + 1) xs).count_le x
  omega

/-- Every copy stands somewhere. -/
theorem exists_iff : (∃ i, OccursAt xs x k i) ↔ k < xs.count x := by
  refine ⟨fun h => h.elim fun _ hi => hi.lt_count, fun h => ?_⟩
  have hk : (xs.filter (· == x))[k]? = some x := by
    rw [List.filter_beq, List.getElem?_replicate_of_lt h]
  obtain ⟨i, hi, _, hcount⟩ := getElem?_filter_iff.mp hk
  exact ⟨i, hi, hcount⟩

theorem map [DecidableEq β] {f : α → β} (hf : Function.Injective f) (h : OccursAt xs x k i) :
    OccursAt (xs.map f) (f x) k i := by
  obtain ⟨hi, rfl⟩ := h
  refine ⟨by rw [List.getElem?_map, hi, Option.map_some], ?_⟩
  rw [← List.map_take, List.count_map_of_injective _ f hf]

/-- A copy of `b` among the keys of a list comes from the member that as many members with that key
precede. -/
theorem map_iff {key : β → α} {ys : List β} :
    OccursAt (ys.map key) x k i ↔ ∃ y, ys[i]? = some y ∧ key y = x ∧
      (ys.take i).countP (fun y => key y = x) = k := by
  rw [OccursAt, List.getElem?_map, Option.map_eq_some_iff, ← List.map_take, List.count,
    List.countP_map]
  simp only [← and_assoc, exists_and_right]
  rfl

end OccursAt

namespace Feeds
variable {feeds : Feeds} {r : Route} {rs : List Route}

theorem draw_cons : feeds.draw (r :: rs) =
    ((feeds.find? (fun f => f.1 = r)).map Prod.snd).getD r.source ::
      draw (feeds.eraseP (fun f => f.1 = r)) rs := by
  rw [draw]
  split
  · rename_i f hf
    rw [hf]
    rfl
  · rename_i hf
    rw [hf, List.eraseP_of_forall_not (List.find?_eq_none.mp hf)]
    rfl

/-- The copies of a route draw the feeds for it in their order, and then its own source. -/
theorem getElem?_draw {k j : Nat} (h : OccursAt rs r k j) : (feeds.draw rs)[j]? =
    some (((feeds.filter (fun f => f.1 = r))[k]?.map Prod.snd).getD r.source) := by
  obtain ⟨hj, rfl⟩ := h
  induction rs generalizing feeds j with
  | nil => cases hj
  | cons q rs ih =>
    rw [draw_cons]
    cases j with
    | zero =>
      rw [List.getElem?_cons_zero, Option.some.injEq] at hj
      rw [hj, List.getElem?_cons_zero, ← List.head?_filter, List.head?_eq_getElem?]
      rfl
    | succ j =>
      rw [List.getElem?_cons_succ] at hj ⊢
      rw [ih hj, filter_eraseP, List.take_succ_cons, List.count_cons]
      by_cases hq : r = q
      · rw [if_pos hq, if_pos (by simp [hq]), List.getElem?_tail]
      · rw [if_neg hq, if_neg (by simpa using Ne.symm hq), Nat.add_zero]

end Feeds

namespace Graph
variable {g : Graph} {a b : Bundle} {d : Direction} {p q : Port} {e : Edge} {k i j : Nat}

/-- The edges of a duplicate tree that lead to its leaves. -/
def outLeaves (g : Graph) (a : Bundle) : List Edge :=
  (FanTree.spanning a.peers).leafEdges .outward (g.rootOf a)

theorem map_target_outLeaves (g : Graph) (a : Bundle) :
    (g.outLeaves a).map Edge.target = a.peers :=
  (FanTree.map_far_leafEdges _ .outward _).trans (FanTree.leaves_spanning a.peers_ne_nil)

theorem shared_anchor (hg : g.WellFormed) (hb : b ∈ g.bundles d) :
    g.shared d b.anchor = true :=
  hg.mem_anchors_iff.mp (List.mem_map.mpr ⟨b, hb, rfl⟩)

theorem injective_route (d : Direction) (near : Port) :
    Function.Injective (d.route near) := by
  intro p q heq
  have hfar := congrArg d.farEnd heq
  simpa [Direction.route] using hfar

/-- The peer at a position of a bundle says which edge stands there. -/
theorem occursAt_routes (hb : b ∈ g.bundles d) (h : OccursAt b.peers p k i) :
    OccursAt b.routes (d.route b.anchor p) k i := by
  rw [Bundle.routes, (mem_bundles.mp hb).2.1]
  exact h.map (injective_route d b.anchor)

/-- A port is a peer as many times as there are edges between it and the anchor. -/
theorem count_peers (hb : b ∈ g.bundles d) (p : Port) :
    b.peers.count p = g.dataRoutes.count (d.route b.anchor p) := by
  have hnear : d.nearEnd (d.route b.anchor p) = b.anchor := by simp [Direction.route]
  have hroutes : b.routes.count (d.route b.anchor p) = b.peers.count p := by
    rw [Bundle.routes, (mem_bundles.mp hb).2.1]
    exact List.count_map_of_injective _ _ (injective_route d b.anchor) p
  rw [← hroutes, routes_of_mem_bundles hb, routesAt, List.count_filter (by simp [hnear])]

theorem leaf_not_mem_outTree (hg : g.WellFormed) (hf : g.FreshPlan)
    (ha : a ∈ g.bundles .outward) :
    ∀ p ∈ (FanTree.spanning a.peers).leaves, p.node ∉ (g.outTree a).ids := by
  rw [FanTree.leaves_spanning a.peers_ne_nil]
  exact fun p => peer_not_mem_outTree hg hf ha

theorem leafEdges_outTree (hg : g.WellFormed) (hf : g.FreshPlan) (ha : a ∈ g.bundles .outward) :
    (g.outTree a).leafEdges .outward = g.outLeaves a :=
  FanTree.leafEdges_batch (leaf_not_mem_outTree hg hf ha)

theorem filter_anchor (hb : b ∈ g.bundles d) :
    (g.bundles d).filter (fun b' => b'.anchor = b.anchor) = [b] :=
  filter_eq_of_nodup_map nodup_anchors hb

/-- The feeds that start at an anchor are those of its tree. -/
theorem filter_source_feeds (ha : a ∈ g.bundles .outward) :
    g.feeds.filter (fun f => f.1.source = a.anchor) = (g.withheld a).feeds := by
  have hparts : g.feeds.filter (fun f => f.1.source = a.anchor) = ((g.bundles .outward).filter
      (fun b => b.anchor = a.anchor)).flatMap (fun b => (g.withheld b).feeds) :=
    filter_flatMap_eq (fun _ _ _ => source_of_mem_withheld) a.anchor
  rw [hparts, filter_anchor ha, List.flatMap_singleton]

/-- The feeds for the edges from one shared port to another are the leaves that stand for these
edges, in their order. -/
theorem filter_feeds_crossing (hg : g.WellFormed) (hf : g.FreshPlan)
    (ha : a ∈ g.bundles .outward) (hq : g.shared .inward q = true) :
    g.feeds.filter (fun f => f.1 = ⟨a.anchor, q⟩) =
      ((g.outLeaves a).filter (fun e => e.target = q)).map
        (fun e => (⟨a.anchor, e.target⟩, e.source)) := by
  have hold := hg.contains_nearEnd (mem_nearEnds_of_shared hq)
  rw [Feeds.filter_route, filter_source_feeds ha, ← leafEdges_outTree hg hf ha, withheld,
    Batch.feeds_withhold, Batch.leafEdges, List.filter_map, List.filter_filter, List.filter_filter]
  congr 1
  apply List.filter_congr
  intro e he
  simp only [Function.comp_def, Direction.far, Route.mk.injEq, true_and]
  by_cases htarget : e.target = q
  · have hnew : q.node ∉ (g.outTree a).ids := fun hm => hf.outTree ha hm hold
    have hleaf : q ∈ a.peers := by
      rw [← htarget, ← FanTree.leaves_spanning a.peers_ne_nil]
      refine (FanTree.far_of_mem_edges he).resolve_right ?_
      rintro ⟨n, hn, hp⟩
      refine hnew (List.mem_map.mpr ⟨n, hn, ?_⟩)
      rw [← Node.node_of_mem_portsOn hp, ← htarget]
      rfl
    rw [htarget, contains_fannedIn_peer hg ha hleaf, hq]
    simp [hnew]
  · simp [htarget]

/-- The leaf port for the edge that comes after `k` others from `a` to `b` is what the join draws
for it. -/
theorem getElem?_draw_crossing (hg : g.WellFormed) (hf : g.FreshPlan)
    (ha : a ∈ g.bundles .outward) (hb : b ∈ g.bundles .inward)
    (hi : OccursAt a.peers b.anchor k i) (hj : OccursAt b.peers a.anchor k j) :
    (g.feeds.draw b.routes)[j]? = (g.outLeaves a)[i]?.map Edge.source := by
  rw [← map_target_outLeaves g a, OccursAt.map_iff] at hi
  obtain ⟨e, he, htarget, hk⟩ := hi
  have hfirst : ((g.outLeaves a).filter (fun e => e.target = b.anchor))[k]? = some e :=
    getElem?_filter_iff.mpr ⟨i, he, decide_eq_true htarget, hk⟩
  have hroute : OccursAt b.routes ⟨a.anchor, b.anchor⟩ k j := occursAt_routes hb hj
  rw [Feeds.getElem?_draw hroute, filter_feeds_crossing hg hf ha (shared_anchor hg hb),
    List.getElem?_map, hfirst, he]
  rfl

/-- A peer that does not fan is drawn itself. -/
theorem getElem?_draw_lone (hg : g.WellFormed) (hb : b ∈ g.bundles .inward)
    (hj : OccursAt b.peers p k j) (hp : g.shared .outward p = false) :
    (g.feeds.draw b.routes)[j]? = some p := by
  have hnone : g.feeds.filter (fun f => f.1 = ⟨p, b.anchor⟩) = [] := by
    apply List.filter_eq_nil_iff.mpr
    intro f hf heq
    obtain ⟨a, ha, e, _, _, rfl⟩ := mem_feeds.mp hf
    have hs := shared_anchor hg ha
    have hanchor : a.anchor = p := congrArg Route.source (of_decide_eq_true heq)
    rw [hanchor, hp] at hs
    cases hs
  have hroute : OccursAt b.routes ⟨p, b.anchor⟩ k j := occursAt_routes hb hj
  rw [Feeds.getElem?_draw hroute, hnone]
  rfl

/-- Between two shared ports there are as many copies of each in the bundle of the other. -/
theorem exists_occursAt_crossing (ha : a ∈ g.bundles .outward) (hb : b ∈ g.bundles .inward) :
    ((∃ j, OccursAt b.peers a.anchor k j) ↔ ∃ i, OccursAt a.peers b.anchor k i) := by
  have hin : b.peers.count a.anchor = g.dataRoutes.count ⟨a.anchor, b.anchor⟩ := count_peers hb _
  have hout : a.peers.count b.anchor = g.dataRoutes.count ⟨a.anchor, b.anchor⟩ := count_peers ha _
  rw [OccursAt.exists_iff, OccursAt.exists_iff, hin, hout]

/-- No port is drawn twice, by one join or by two. -/
theorem nodup_draws (hg : g.WellFormed) {c : Change} (h : g.expandFans.result = .ok c) :
    ((g.bundles .inward).flatMap (fun b => g.feeds.draw b.routes)).Nodup := by
  have hends := nodup_nearEnds_expandFans hg h .outward
  rw [(revision_expandFans hg h).nearEnds_eq fun e => isContinuation_of_mem_fanPlan] at hends
  have hplan := (List.nodup_append.mp hends).2.1
  rw [edges_fanPlan, List.map_append] at hplan
  have hjoins := (List.nodup_append.mp hplan).1
  have hfar := perm_far_trees g .inward (fun b => g.feeds.draw b.routes) (g.bundles .inward)
    fun b _ => draw_ne_nil b g.feeds
  exact (List.nodup_append.mp (hfar.nodup_iff.mp hjoins)).1

theorem eq_of_getElem?_draw (hg : g.WellFormed) {c : Change} (h : g.expandFans.result = .ok c)
    {b' : Bundle} (hb : b ∈ g.bundles .inward) (hb' : b' ∈ g.bundles .inward) {j' : Nat}
    (hj : (g.feeds.draw b.routes)[j]? = some p) (hj' : (g.feeds.draw b'.routes)[j']? = some p) :
    b = b' ∧ j = j' := by
  obtain ⟨hone, hall⟩ := List.nodup_flatMap.mp (nodup_draws hg h)
  have hsymm : Std.Symm (Function.onFun List.Disjoint
      fun b : Bundle => g.feeds.draw b.routes) := ⟨fun _ _ hd => hd.symm⟩
  have heq : b = b' := by
    by_contra hne
    exact hall.forall hb hb' hne (List.mem_of_getElem? hj) (List.mem_of_getElem? hj')
  subst heq
  exact ⟨rfl, (List.getElem?_inj (List.getElem?_eq_some_iff.mp hj).1 (hone b hb)).mp
    (hj.trans hj'.symm)⟩

/-- Whether a node is a join that was added to `g`. -/
def addedJoin (g g' : Graph) (id : NodeId) : Bool :=
  !g.contains id &&
    (g'.node? id).any (fun n => n.value.componentName = Synthesis.joinComponent)

/-- Reading the joins above a port of `g'` from left to right, these are the ports that feed them. -/
def Collects (g g' : Graph) (q : Port) (inputs : List Port) : Prop :=
  ∃ es, Reads .inward g'.dataEdges (g.addedJoin g') q es ∧ es.map Edge.source = inputs

/-- Reading the duplicate tree of a bundle as it is built, before any leaf is held back, these are
the edges to its leaves. -/
def Spreads (g : Graph) (a : Bundle) (leaves : List Edge) : Prop :=
  ∃ root tree, g.fanRoot a = .ok root ∧ Direction.outward.tree root a.peers = .ok tree ∧
    Reads .outward tree.edges tree.ids.contains a.anchor leaves

theorem spreads_iff (hg : g.WellFormed) (hf : g.FreshPlan) (ha : a ∈ g.bundles .outward)
    {leaves : List Edge} : g.Spreads a leaves ↔ leaves = g.outLeaves a := by
  have hrouted : Routed .outward a.anchor (FanTree.spanning a.peers).leaves (g.outTree a) :=
    FanTree.routed_batch (leaf_not_mem_outTree hg hf ha)
  have htree := FanTree.tree_eq_spanning a.peers_ne_nil .outward (g.rootOf a)
  rw [← leafEdges_outTree hg hf ha, ← hrouted.reading]
  constructor
  · rintro ⟨root, tree, hroot, htree', hread⟩
    rw [hg.fanRoot_eq ha, Except.ok.injEq] at hroot
    subst hroot
    rw [htree, Except.ok.injEq] at htree'
    subst htree'
    exact hread
  · exact fun hread => ⟨_, _, hg.fanRoot_eq ha, htree, hread⟩

section Result
variable {c : Change}

theorem addedJoin_eq_false_of_old (hp : g.contains p.node = true) (g' : Graph) :
    g.addedJoin g' p.node = false := by
  simp [addedJoin, hp]

/-- The added joins are the nodes of the join trees. -/
theorem addedJoin_inTree (hg : g.WellFormed) (h : g.expandFans.result = .ok c)
    (hb : b ∈ g.bundles .inward) {id : NodeId} (hid : id ∈ (g.inTree b).ids) :
    g.addedJoin g.expandFans.graph id = true := by
  obtain ⟨n, hn, rfl⟩ := List.mem_map.mp hid
  have hrevision := revision_expandFans hg h
  have hmem := mem_nodes_of_inTree hb hn
  have hnew := Bool.eq_false_iff.mpr (hrevision.fresh hmem)
  have hc : n.value.componentName = Synthesis.joinComponent := by
    rw [FanTree.eq_twoWay_of_mem_batch hn]
    rfl
  simp [addedJoin, hnew, hrevision.node?_of_mem_batch hmem, hc]

theorem addedJoin_outTree (hg : g.WellFormed) (h : g.expandFans.result = .ok c)
    (ha : a ∈ g.bundles .outward) {id : NodeId} (hid : id ∈ (g.outTree a).ids) :
    g.addedJoin g.expandFans.graph id = false := by
  obtain ⟨n, hn, rfl⟩ := List.mem_map.mp hid
  have hmem := mem_nodes_of_outTree ha hn
  have hc : n.value.componentName ≠ Synthesis.joinComponent := by
    have hother : Synthesis.duplicateComponent ≠ Synthesis.joinComponent := by decide
    rw [FanTree.eq_twoWay_of_mem_batch hn]
    exact hother
  simp [addedJoin, (revision_expandFans hg h).node?_of_mem_batch hmem, hc]

theorem embedded_inTree (hg : g.WellFormed) (h : g.expandFans.result = .ok c)
    (hb : b ∈ g.bundles .inward) : FanTree.Embedded (FanTree.spanning (g.feeds.draw b.routes))
      .inward (g.rootOf b) g.expandFans.graph.dataEdges (g.addedJoin g.expandFans.graph) where
  edge _ he := mem_dataEdges_of_mem_fanPlan hg h (mem_edges_fanPlan.mpr (.inl ⟨b, hb, he⟩))
  node _ hid := addedJoin_inTree hg h hb hid

theorem nodup_near_expandFans (hg : g.WellFormed) (h : g.expandFans.result = .ok c)
    (d : Direction) : (g.expandFans.graph.dataEdges.map d.near).Nodup := by
  rw [map_near_dataEdges]
  exact nodup_nearEnds_expandFans hg h d

/-- What is read above the anchor of a join is what the join drew. -/
theorem collects_iff (hg : g.WellFormed) (h : g.expandFans.result = .ok c)
    (hb : b ∈ g.bundles .inward) {inputs : List Port} :
    g.Collects g.expandFans.graph b.anchor inputs ↔ inputs = g.feeds.draw b.routes := by
  have hleaves := FanTree.leaves_spanning (draw_ne_nil b g.feeds)
  have hold : ∀ p ∈ (FanTree.spanning (g.feeds.draw b.routes)).leaves,
      g.addedJoin g.expandFans.graph p.node = false := by
    intro p hp
    rw [hleaves] at hp
    rcases node_of_mem_draw hg (freshPlan_of_expandFans hg h) hb hp with hc | ⟨a, ha, hid⟩
    · exact addedJoin_eq_false_of_old hc _
    · exact addedJoin_outTree hg h ha hid
  have hreads := FanTree.reads_leafEdges (embedded_inTree hg h hb) hold
  have hsources := FanTree.map_far_leafEdges (FanTree.spanning (g.feeds.draw b.routes)) .inward
    (g.rootOf b)
  rw [hleaves] at hsources
  constructor
  · rintro ⟨es, hes, rfl⟩
    rw [hes.unique (nodup_near_expandFans hg h .inward) hreads]
    exact hsources
  · rintro rfl
    exact ⟨_, hreads, hsources⟩

theorem addedJoin_source_outTree (hg : g.WellFormed) (h : g.expandFans.result = .ok c)
    (ha : a ∈ g.bundles .outward) (he : e ∈ (g.outTree a).edges) :
    g.addedJoin g.expandFans.graph e.source.node = false := by
  rcases FanTree.near_of_mem_batch he with hroot | hid
  · have hsource : e.source = a.anchor := hroot
    rw [hsource]
    exact addedJoin_eq_false_of_old (mem_bundles.mp ha).1 _
  · exact addedJoin_outTree hg h ha hid

/-- The one edge into the anchor of a join comes from a node of its tree. -/
theorem addedJoin_source_of_anchor (hg : g.WellFormed) (h : g.expandFans.result = .ok c)
    (hb : b ∈ g.bundles .inward) (he : e ∈ g.expandFans.graph.dataEdges)
    (htarget : e.target = b.anchor) : g.addedJoin g.expandFans.graph e.source.node = true := by
  have hembedded := embedded_inTree hg h hb
  cases hspan : FanTree.spanning (g.feeds.draw b.routes) with
  | leaf peer => exact absurd hspan (spanning_draw_ne_leaf b peer)
  | fork first last left right =>
    rw [hspan] at hembedded
    have htrunk : e = Direction.inward.connect b.anchor _ :=
      eq_of_near (nodup_near_expandFans hg h .inward) he hembedded.trunk
        (htarget.trans (Direction.near_connect _ _ _).symm)
    rw [htrunk]
    exact hembedded.top

/-- A leaf is held back exactly if it would lead to a shared port. -/
theorem outLeaf_mem_iff (hg : g.WellFormed) (h : g.expandFans.result = .ok c)
    (ha : a ∈ g.bundles .outward) (he : e ∈ g.outLeaves a) :
    e ∈ g.expandFans.graph.edges ↔ g.shared .inward e.target = false := by
  have hf := freshPlan_of_expandFans hg h
  have hedge : e ∈ (g.outTree a).edges := by
    rw [← leafEdges_outTree hg hf ha] at he
    exact (List.mem_filter.mp he).1
  have hpeer : e.target ∈ a.peers := by
    rw [← map_target_outLeaves g a]
    exact List.mem_map.mpr ⟨e, he, rfl⟩
  constructor
  · intro hmem
    by_contra hshared
    rw [Bool.not_eq_false, ← hg.mem_anchors_iff] at hshared
    obtain ⟨b, hb, hanchor⟩ := List.mem_map.mp hshared
    obtain ⟨near, far, hconnect⟩ := FanTree.exists_connect_of_mem_batch hedge
    have hdata : e.isContinuation = false := by
      rw [hconnect, Direction.isContinuation_connect]
    have hjoin := addedJoin_source_of_anchor hg h hb (mem_dataEdges.mpr ⟨hmem, hdata⟩) hanchor.symm
    rw [addedJoin_source_outTree hg h ha hedge] at hjoin
    cases hjoin
  · intro hlone
    refine (revision_expandFans hg h).mem_edges_iff.mpr (.inr (mem_edges_fanPlan.mpr (.inr
      ⟨a, ha, hedge, ?_⟩)))
    rw [contains_fannedIn_peer hg ha hpeer, hlone]

end Result

/-- What feeds the join over a bundle, in the order of its edges: a peer itself if it does not fan,
and otherwise a leaf port of its duplicate tree. Of several edges between the same two ports, the one
that comes after `k` others at the join takes the leaf that comes after `k` others at the
duplicate. -/
structure InJoinOrder (g g' : Graph) (b : Bundle) (inputs : List Port) : Prop where
  reading : ∀ ports, g.Collects g' b.anchor ports ↔ ports = inputs
  length : inputs.length = b.peers.length
  lone : ∀ (j : Nat) (p : Port), b.peers[j]? = some p → g.shared .outward p = false →
    inputs[j]? = some p
  crossing : ∀ j p k, OccursAt b.peers p k j → g.shared .outward p = true →
    ∃ a ∈ g.bundles .outward, ∃ leaves i, a.anchor = p ∧ g.Spreads a leaves ∧
      OccursAt a.peers b.anchor k i ∧ inputs[j]? = leaves[i]?.map Edge.source

/-- A port is read at position `j` of the join above a shared port. -/
def ReadAt (g g' : Graph) (q : Port) (j : Nat) (p : Port) : Prop :=
  g.shared .inward q = true ∧ ∃ inputs, g.Collects g' q inputs ∧ inputs[j]? = some p

/-- The leaves of a duplicate tree lead to the peers of its bundle. Those that are not in the graph
any more are each read at one position of one join, which is the one above the peer. -/
structure HandedOver (g g' : Graph) (a : Bundle) (leaves : List Edge) : Prop where
  reading : ∀ es, g.Spreads a es ↔ es = leaves
  targets : leaves.map Edge.target = a.peers
  kept : ∀ e ∈ leaves, e ∈ g'.edges ↔ g.shared .inward e.target = false
  once : ∀ e ∈ leaves, e ∉ g'.edges → ∃ j, ∀ q i, g.ReadAt g' q i e.source ↔ q = e.target ∧ i = j

section Result
variable {c : Change}

theorem inJoinOrder_draw (hg : g.WellFormed) (h : g.expandFans.result = .ok c)
    (hb : b ∈ g.bundles .inward) :
    g.InJoinOrder g.expandFans.graph b (g.feeds.draw b.routes) where
  reading ports := collects_iff hg h hb
  length := by rw [Feeds.length_draw, Bundle.routes, List.length_map]
  lone j p hj hp := getElem?_draw_lone hg hb ⟨hj, rfl⟩ hp
  crossing j p k hj hp := by
    have hf := freshPlan_of_expandFans hg h
    obtain ⟨a, ha, rfl⟩ := List.mem_map.mp (hg.mem_anchors_iff.mpr hp)
    obtain ⟨i, hi⟩ := (exists_occursAt_crossing ha hb).mp ⟨j, hj⟩
    exact ⟨a, ha, g.outLeaves a, i, rfl, (spreads_iff hg hf ha).mpr rfl, hi,
      getElem?_draw_crossing hg hf ha hb hi hj⟩

theorem readAt_iff (hg : g.WellFormed) (h : g.expandFans.result = .ok c) :
    g.ReadAt g.expandFans.graph q j p ↔
      ∃ b ∈ g.bundles .inward, b.anchor = q ∧ (g.feeds.draw b.routes)[j]? = some p := by
  constructor
  · rintro ⟨hq, inputs, hinputs, hj⟩
    obtain ⟨b, hb, rfl⟩ := List.mem_map.mp (hg.mem_anchors_iff.mpr hq)
    rw [collects_iff hg h hb] at hinputs
    exact ⟨b, hb, rfl, hinputs ▸ hj⟩
  · rintro ⟨b, hb, rfl, hj⟩
    exact ⟨shared_anchor hg hb, _, (collects_iff hg h hb).mpr rfl, hj⟩

theorem handedOver_outLeaves (hg : g.WellFormed) (h : g.expandFans.result = .ok c)
    (ha : a ∈ g.bundles .outward) : g.HandedOver g.expandFans.graph a (g.outLeaves a) where
  reading es := spreads_iff hg (freshPlan_of_expandFans hg h) ha
  targets := map_target_outLeaves g a
  kept e he := outLeaf_mem_iff hg h ha he
  once e he hheld := by
    rw [outLeaf_mem_iff hg h ha he, Bool.not_eq_false, ← hg.mem_anchors_iff] at hheld
    obtain ⟨b, hb, hanchor⟩ := List.mem_map.mp hheld
    obtain ⟨i, hi⟩ := List.getElem?_of_mem he
    have hpeer : a.peers[i]? = some b.anchor := by
      rw [← map_target_outLeaves g a, List.getElem?_map, hi, hanchor]
      rfl
    obtain ⟨j, hj⟩ := (exists_occursAt_crossing ha hb).mpr ⟨i, hpeer, rfl⟩
    have hdraw := getElem?_draw_crossing hg (freshPlan_of_expandFans hg h) ha hb ⟨hpeer, rfl⟩ hj
    rw [hi, Option.map_some] at hdraw
    refine ⟨j, fun q i => ?_⟩
    rw [readAt_iff hg h, ← hanchor]
    constructor
    · rintro ⟨b', hb', rfl, hi⟩
      obtain ⟨rfl, rfl⟩ := eq_of_getElem?_draw hg h hb' hb hi hdraw
      exact ⟨rfl, rfl⟩
    · rintro ⟨rfl, rfl⟩
      exact ⟨b, hb, rfl, hdraw⟩

/-- Crossing fans keep the order of every join, and use every leaf that is held back exactly once. -/
theorem join_order (hv : Validator.structural.accepts g = true)
    (h : g.expandFans.result = .ok c) :
    (∀ b ∈ g.bundles .inward, ∃ inputs, g.InJoinOrder g.expandFans.graph b inputs) ∧
      ∀ a ∈ g.bundles .outward, ∃ leaves, g.HandedOver g.expandFans.graph a leaves := by
  have hg := accepts_iff.mp hv
  exact ⟨fun _ hb => ⟨_, inJoinOrder_draw hg h hb⟩, fun _ ha => ⟨_, handedOver_outLeaves hg h ha⟩⟩

end Result

/-- Two edges from `a` to `c`, with one from `b` to `c` and one from `a` to `d` in between. -/
def braided : Graph where
  nodes := .ofList [stub "a" true, stub "b" true, stub "c" true, stub "d" true]
  edges := [.between ⟨"a", "o"⟩ ⟨"c", "i"⟩, .between ⟨"b", "o"⟩ ⟨"c", "i"⟩,
    .between ⟨"a", "o"⟩ ⟨"d", "i"⟩, .between ⟨"a", "o"⟩ ⟨"c", "i"⟩]

/-- The first and the third leaf of the duplicate are the first and the third input of the join. -/
theorem join_order_braided : braided.expandFans.result = .ok ⟨4, 4, 8⟩ ∧
    ∃ b ∈ braided.bundles .inward, b.anchor = ⟨"c", "i"⟩ ∧
      b.peers = [⟨"a", "o"⟩, ⟨"b", "o"⟩, ⟨"a", "o"⟩] ∧
      braided.InJoinOrder braided.expandFans.graph b
        [⟨"a_o_DUPLICATE_0_2_d1_DUPLICATE_0_1", "d1"⟩, ⟨"b", "o"⟩, ⟨"a_o_DUPLICATE_0_2", "d2"⟩] := by
  have hrun : braided.expandFans.result = .ok ⟨4, 4, 8⟩ := by decide +kernel
  refine ⟨hrun, ?_⟩
  have hreads : braided.Collects braided.expandFans.graph ⟨"c", "i"⟩
      [⟨"a_o_DUPLICATE_0_2_d1_DUPLICATE_0_1", "d1"⟩, ⟨"b", "o"⟩, ⟨"a_o_DUPLICATE_0_2", "d2"⟩] := by
    refine ⟨_, .fork (e := .between ⟨"c_i_JOIN_0_2", "to"⟩ ⟨"c", "i"⟩) (by decide +kernel) rfl
      (by decide +kernel) rfl
      (.fork (e := .between ⟨"c_i_JOIN_0_2_in1_JOIN_0_1", "to"⟩ ⟨"c_i_JOIN_0_2", "in1"⟩)
        (by decide +kernel) rfl (by decide +kernel) rfl
        (.leaf (e := .between ⟨"a_o_DUPLICATE_0_2_d1_DUPLICATE_0_1", "d1"⟩
          ⟨"c_i_JOIN_0_2_in1_JOIN_0_1", "in1"⟩) (by decide +kernel) rfl (by decide +kernel))
        (.leaf (e := .between ⟨"b", "o"⟩ ⟨"c_i_JOIN_0_2_in1_JOIN_0_1", "in2"⟩)
          (by decide +kernel) rfl (by decide +kernel)))
      (.leaf (e := .between ⟨"a_o_DUPLICATE_0_2", "d2"⟩ ⟨"c_i_JOIN_0_2", "in2"⟩)
        (by decide +kernel) rfl (by decide +kernel)), rfl⟩
  obtain ⟨hjoins, _⟩ := join_order (g := braided) (by decide) hrun
  have hanchor : (⟨"c", "i"⟩ : Port) ∈ (braided.bundles .inward).map Bundle.anchor := by
    decide +kernel
  obtain ⟨b, hb, hanchor⟩ := List.mem_map.mp hanchor
  obtain ⟨inputs, hinputs⟩ := hjoins b hb
  have hpeers : b.peers = [⟨"a", "o"⟩, ⟨"b", "o"⟩, ⟨"a", "o"⟩] := by
    rw [(mem_bundles.mp hb).2.2.2, hanchor]
    decide +kernel
  refine ⟨b, hb, hanchor, hpeers, ?_⟩
  rw [← hanchor] at hreads
  rw [(hinputs.reading _).mp hreads]
  exact hinputs

end Graph
end PortNet
