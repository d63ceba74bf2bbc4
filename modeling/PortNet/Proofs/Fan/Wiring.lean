import Mathlib.Data.List.Perm.Basic
import PortNet.Proofs.Fan.Expansion

namespace PortNet

theorem count_diff {α : Type} [DecidableEq α] (xs ys : List α) (a : α) :
    (xs.diff ys).count a = xs.count a - ys.count a := by
  induction ys generalizing xs with
  | nil => simp
  | cons y ys ih =>
    rw [List.diff_cons, ih, List.count_erase, List.count_cons]
    omega

namespace Graph

variable {g : Graph} {b : Bundle} {d : Direction} {p : Port} {r : Route}

/-- The trees at several bundles start at the anchors and at the branch ports of their nodes. -/
theorem perm_near_trees (g : Graph) (d : Direction) (peers : Bundle → List Port)
    (bs : List Bundle) :
    ((bs.flatMap (fun b => ((FanTree.spanning (peers b)).batch d (g.rootOf b)).edges)).map
      d.near).Perm (bs.map Bundle.anchor ++
        (bs.flatMap (fun b => ((FanTree.spanning (peers b)).batch d (g.rootOf b)).nodes)).flatMap
          (fun n => n.portsOn d.side)) := by
  rw [List.map_flatMap, List.flatMap_assoc]
  refine List.Perm.trans ?_ (List.map_append_flatMap_perm bs _ _).symm
  exact List.Perm.flatMap_left bs fun b _ => FanTree.perm_near_batch _ d (g.rootOf b)

/-- They end at the peers and at the trunk ports of their nodes. -/
theorem perm_far_trees (g : Graph) (d : Direction) (peers : Bundle → List Port)
    (bs : List Bundle) (hne : ∀ b ∈ bs, peers b ≠ []) :
    ((bs.flatMap (fun b => ((FanTree.spanning (peers b)).batch d (g.rootOf b)).edges)).map
      d.far).Perm (bs.flatMap peers ++
        (bs.flatMap (fun b => ((FanTree.spanning (peers b)).batch d (g.rootOf b)).nodes)).flatMap
          (fun n => n.portsOn d.side.opposite)) := by
  rw [List.map_flatMap, List.flatMap_assoc]
  refine List.Perm.trans ?_ (List.flatMap_append_perm bs _ _).symm
  refine List.Perm.flatMap_left bs fun b hb => ?_
  have hfar := FanTree.perm_far_batch (FanTree.spanning (peers b)) d (g.rootOf b)
  rwa [FanTree.leaves_spanning (hne b hb)] at hfar

/-- No planned node is in the graph yet. -/
def FreshPlan (g : Graph) : Prop := ∀ n ∈ g.fanPlan.nodes, g.contains n.id ≠ true

theorem freshPlan_of_expandFans (hg : g.WellFormed) {c : Change}
    (h : g.expandFans.result = .ok c) : g.FreshPlan :=
  fun _ hn => (revision_expandFans hg h).fresh hn

theorem FreshPlan.outTree (hf : g.FreshPlan) (hb : b ∈ g.bundles .outward) {id : NodeId}
    (hid : id ∈ (g.outTree b).ids) : g.contains id ≠ true := by
  obtain ⟨n, hn, rfl⟩ := List.mem_map.mp hid
  exact hf n (mem_nodes_of_outTree hb hn)

theorem FreshPlan.inTree (hf : g.FreshPlan) (hb : b ∈ g.bundles .inward) {id : NodeId}
    (hid : id ∈ (g.inTree b).ids) : g.contains id ≠ true := by
  obtain ⟨n, hn, rfl⟩ := List.mem_map.mp hid
  exact hf n (mem_nodes_of_inTree hb hn)

theorem mem_fannedIn (hg : g.WellFormed) :
    r ∈ g.fannedIn ↔ r ∈ g.dataRoutes ∧ g.shared .inward r.target = true :=
  hg.mem_routes_iff

theorem contains_fannedIn (hg : g.WellFormed) (hr : r ∈ g.dataRoutes) :
    g.fannedIn.contains r = g.shared .inward r.target := by
  rw [Bool.eq_iff_iff, List.contains_iff_mem, mem_fannedIn hg]
  exact and_iff_right hr

theorem contains_fannedIn_peer (hg : g.WellFormed) (hb : b ∈ g.bundles .outward)
    (hp : p ∈ b.peers) : g.fannedIn.contains ⟨b.anchor, p⟩ = g.shared .inward p := by
  obtain ⟨e, he, hs, ht⟩ := (mem_peers_iff hb).mp hp
  rw [← hs, ← ht]
  exact contains_fannedIn hg (mem_dataRoutes.mpr ⟨e, he, rfl⟩)

theorem routes_outward (hb : b ∈ g.bundles .outward) :
    b.routes = b.peers.map (Route.mk b.anchor) := by
  rw [Bundle.routes, (mem_bundles.mp hb).2.1]
  rfl

/-- Edges that lead to a node of a duplicate tree are never held back. -/
theorem not_fannedIn (hg : g.WellFormed) (hf : g.FreshPlan) (hb : b ∈ g.bundles .outward)
    {q : Port} (hq : q ∈ (g.outTree b).nodes.flatMap (fun n => n.portsOn .input)) :
    g.fannedIn.contains ⟨p, q⟩ = false := by
  obtain ⟨n, hn, hq⟩ := List.mem_flatMap.mp hq
  rw [Bool.eq_false_iff, Ne, List.contains_iff_mem, mem_fannedIn hg]
  intro hall
  obtain ⟨hr, _⟩ := hall
  have hc := hg.contains_nearEnd (mem_nearEnds.mpr ⟨_, hr, rfl⟩ : q ∈ g.nearEnds .inward)
  rw [Node.node_of_mem_portsOn hq] at hc
  exact hf.outTree hb (List.mem_map.mpr ⟨n, hn, rfl⟩) hc

/-- What is held back of a tree are its leaves on fanned-in routes, and never one of the edges
between its nodes. -/
theorem perm_routes_withheld (hg : g.WellFormed) (hf : g.FreshPlan)
    (hb : b ∈ g.bundles .outward) :
    ((g.withheld b).feeds.map Prod.fst).Perm
      (b.routes.filter (fun r => g.fannedIn.contains r)) := by
  have hfeeds : (g.withheld b).feeds.map Prod.fst =
      (((g.outTree b).edges.map Direction.outward.far).map (Route.mk b.anchor)).filter
        (fun r => g.fannedIn.contains r) := by
    rw [withheld, Batch.feeds_withhold, List.map_map, List.map_map, List.filter_map]
    rfl
  have hfar := (FanTree.perm_far_batch (FanTree.spanning b.peers) .outward (g.rootOf b)).map
    (Route.mk b.anchor)
  rw [FanTree.leaves_spanning b.peers_ne_nil, List.map_append] at hfar
  have hinner : (((g.outTree b).nodes.flatMap
      (fun n => n.portsOn Direction.outward.side.opposite)).map (Route.mk b.anchor)).filter
        (fun r => g.fannedIn.contains r) = [] := by
    apply List.filter_eq_nil_iff.mpr
    intro r hr
    obtain ⟨q, hq, rfl⟩ := List.mem_map.mp hr
    rw [not_fannedIn hg hf hb hq]
    exact Bool.false_ne_true
  rw [hfeeds]
  refine (hfar.filter _).trans (List.Perm.of_eq ?_)
  rw [List.filter_append, ← outTree, hinner, List.append_nil, routes_outward hb]

/-- The feeds stand in for the data edges that lie in bundles of both directions, one each. -/
theorem perm_routes_feeds (hg : g.WellFormed) (hf : g.FreshPlan) :
    (g.feeds.map Prod.fst).Perm (g.dataRoutes.filter
      (fun r => g.shared .inward r.target && g.shared .outward r.source)) := by
  have hwithheld : (g.feeds.map Prod.fst).Perm
      (((g.bundles .outward).flatMap Bundle.routes).filter (fun r => g.fannedIn.contains r)) := by
    rw [feeds, List.map_flatMap, List.filter_flatMap]
    exact List.Perm.flatMap_left _ fun b hb => perm_routes_withheld hg hf hb
  refine hwithheld.trans (((hg.perm_routes .outward).filter _).trans (List.Perm.of_eq ?_))
  rw [List.filter_filter]
  apply List.filter_congr
  intro r hr
  rw [contains_fannedIn hg hr]
  rfl

theorem count_routes_feeds (hg : g.WellFormed) (hf : g.FreshPlan)
    (hs : g.shared .inward r.target = true) : (g.feeds.map Prod.fst).count r =
      if g.shared .outward r.source = true then g.dataRoutes.count r else 0 := by
  rw [(perm_routes_feeds hg hf).count_eq]
  split
  · rename_i ho
    rw [List.count_filter (by simp [hs, ho])]
  · rename_i ho
    apply List.count_eq_zero_of_not_mem
    intro hm
    have hp := (List.mem_filter.mp hm).2
    simp only [Bool.and_eq_true] at hp
    exact ho hp.2

theorem count_routes_bundle (hb : b ∈ g.bundles d) (hr : r ∈ b.routes) :
    b.routes.count r = g.dataRoutes.count r := by
  rw [routes_of_mem_bundles hb] at hr ⊢
  exact List.count_filter (List.mem_filter.mp hr).2

theorem shared_target_of_mem_routes (hg : g.WellFormed) (hb : b ∈ g.bundles .inward)
    (hr : r ∈ b.routes) : g.shared .inward r.target = true :=
  ((mem_fannedIn hg).mp (List.mem_flatMap.mpr ⟨b, hb, hr⟩)).2

/-- The feeds for a route of a join are as many as its copies, or there are none. -/
theorem count_routes_feeds_bundle (hg : g.WellFormed) (hf : g.FreshPlan)
    (hb : b ∈ g.bundles .inward) (hr : r ∈ b.routes) : (g.feeds.map Prod.fst).count r =
      if g.shared .outward r.source = true then b.routes.count r else 0 := by
  rw [count_routes_feeds hg hf (shared_target_of_mem_routes hg hb hr), count_routes_bundle hb hr]

/-- The routes of a join that are left without a feed are those of sources that do not fan. -/
theorem perm_undrawn (hg : g.WellFormed) (hf : g.FreshPlan) (hb : b ∈ g.bundles .inward) :
    (b.routes.diff (g.feeds.map Prod.fst)).Perm
      (b.routes.filter (fun r => !g.shared .outward r.source)) := by
  apply List.perm_iff_count.mpr
  intro r
  rw [count_diff]
  by_cases hr : r ∈ b.routes
  · rw [count_routes_feeds_bundle hg hf hb hr]
    cases ho : g.shared .outward r.source with
    | true =>
      rw [if_pos rfl, Nat.sub_self, eq_comm]
      exact List.count_eq_zero_of_not_mem fun hm => by simp [ho] at hm
    | false =>
      rw [List.count_filter (by simp [ho])]
      simp
  · rw [List.count_eq_zero_of_not_mem hr, Nat.zero_sub, eq_comm]
    exact List.count_eq_zero_of_not_mem fun hm => hr (List.mem_filter.mp hm).1

theorem feeds_of_bundle (hg : g.WellFormed) (hf : g.FreshPlan) (hb : b ∈ g.bundles .inward) :
    g.feeds.filter (fun f => decide (f.1 ∈ b.routes)) =
      g.feeds.filter (fun f => f.1.target = b.anchor) := by
  apply List.filter_congr
  intro f hm
  have hr := (perm_routes_feeds hg hf).mem_iff.mp (List.mem_map.mpr ⟨f, hm, rfl⟩)
  apply decide_eq_decide.mpr
  rw [routes_of_mem_bundles hb, routesAt, List.mem_filter, and_iff_right (List.mem_filter.mp hr).1]
  exact decide_eq_true_iff

/-- At one join every feed for its routes is drawn, and all routes that start at a shared port have
one. -/
theorem perm_drawn_at (hg : g.WellFormed) (hf : g.FreshPlan) (hb : b ∈ g.bundles .inward) :
    (b.routes.zip (g.feeds.draw b.routes)).Perm
      (g.feeds.filter (fun f => f.1.target = b.anchor) ++
        (b.routes.filter (fun r => !g.shared .outward r.source)).map (fun r => (r, r.source))) := by
  have hle : ∀ r ∈ b.routes, (g.feeds.map Prod.fst).count r ≤ b.routes.count r := by
    intro r hr
    rw [count_routes_feeds_bundle hg hf hb hr]
    split
    · exact Nat.le_refl _
    · exact Nat.zero_le _
  refine (Feeds.perm_zip_draw hle).trans ?_
  rw [feeds_of_bundle hg hf hb]
  exact ((perm_undrawn hg hf hb).map _).append_left _

theorem mem_feeds {f : Route × Port} : f ∈ g.feeds ↔ ∃ a ∈ g.bundles .outward,
    ∃ e ∈ (g.outTree a).edges, g.fannedIn.contains ⟨a.anchor, e.target⟩ = true ∧
      (⟨a.anchor, e.target⟩, e.source) = f := by
  simp only [feeds, List.mem_flatMap, withheld, Batch.feeds_withhold, List.mem_map, List.mem_filter,
    and_assoc]

/-- What a join draws for a route: the leaf of a duplicate tree that stands for it, or else its own
source. -/
theorem mem_zip_draw (hg : g.WellFormed) (hf : g.FreshPlan) (hb : b ∈ g.bundles .inward) :
    (r, p) ∈ b.routes.zip (g.feeds.draw b.routes) ↔
      ((r, p) ∈ g.feeds ∧ r.target = b.anchor) ∨
        (r ∈ b.routes ∧ g.shared .outward r.source = false ∧ r.source = p) := by
  rw [(perm_drawn_at hg hf hb).mem_iff, List.mem_append, List.mem_filter, decide_eq_true_iff,
    List.mem_map]
  refine or_congr_right ⟨?_, ?_⟩
  · intro hall
    obtain ⟨q, hq, heq⟩ := hall
    cases heq
    obtain ⟨hr, hs⟩ := List.mem_filter.mp hq
    exact ⟨hr, by simpa using hs, rfl⟩
  · intro hall
    obtain ⟨hr, hs, rfl⟩ := hall
    exact ⟨r, List.mem_filter.mpr ⟨hr, by simp [hs]⟩, rfl⟩

/-- Over all joins every feed is drawn exactly once, and the other inward routes keep their
sources. -/
theorem perm_drawn (hg : g.WellFormed) (hf : g.FreshPlan) :
    ((g.bundles .inward).flatMap (fun b => b.routes.zip (g.feeds.draw b.routes))).Perm
      (g.feeds ++ (g.dataRoutes.filter
        (fun r => !g.shared .outward r.source && g.shared .inward r.target)).map
          (fun r => (r, r.source))) := by
  refine (List.Perm.flatMap_left _ fun b hb => perm_drawn_at hg hf hb).trans ?_
  refine (List.flatMap_append_perm _ _ _).symm.trans (List.Perm.append ?_ ?_)
  · have hkeys := perm_flatMap_filter (fun f : Route × Port => f.1.target) g.feeds
      (nodup_anchors : ((g.bundles .inward).map Bundle.anchor).Nodup)
    rw [List.flatMap_map] at hkeys
    refine hkeys.trans (List.Perm.of_eq (List.filter_eq_self.mpr fun f hm => ?_))
    have hr := (perm_routes_feeds hg hf).mem_iff.mp (List.mem_map.mpr ⟨f, hm, rfl⟩)
    have hp := (List.mem_filter.mp hr).2
    simp only [Bool.and_eq_true] at hp
    exact decide_eq_true (hg.mem_anchors_iff.mpr hp.1)
  · rw [← List.map_flatMap, ← List.filter_flatMap]
    refine (((hg.perm_routes .inward).filter _).map _).trans (List.Perm.of_eq ?_)
    rw [List.filter_filter]
    rfl

theorem perm_targets_kept (hg : g.WellFormed) (hf : g.FreshPlan) (hb : b ∈ g.bundles .outward) :
    ((g.withheld b).batch.edges.map Edge.target).Perm
      ((b.routes.filter (fun r => !g.fannedIn.contains r)).map Route.target ++
        (g.outTree b).nodes.flatMap (fun n => n.portsOn .input)) := by
  have hkept : (g.withheld b).batch.edges.map Edge.target =
      ((g.outTree b).edges.map Edge.target).filter
        (fun q => !g.fannedIn.contains ⟨b.anchor, q⟩) := by
    rw [withheld, Batch.edges_withhold, List.filter_map]
    rfl
  have hfar : ((g.outTree b).edges.map Edge.target).Perm
      (b.peers ++ (g.outTree b).nodes.flatMap (fun n => n.portsOn .input)) := by
    have hfar := FanTree.perm_far_batch (FanTree.spanning b.peers) .outward (g.rootOf b)
    rwa [FanTree.leaves_spanning b.peers_ne_nil] at hfar
  have hinner : ((g.outTree b).nodes.flatMap (fun n => n.portsOn .input)).filter
      (fun q => !g.fannedIn.contains ⟨b.anchor, q⟩) =
        (g.outTree b).nodes.flatMap (fun n => n.portsOn .input) := by
    apply List.filter_eq_self.mpr
    intro q hq
    rw [not_fannedIn hg hf hb hq]
    rfl
  have hleaves : (b.routes.filter (fun r => !g.fannedIn.contains r)).map Route.target =
      b.peers.filter (fun q => !g.fannedIn.contains ⟨b.anchor, q⟩) := by
    rw [routes_outward hb, List.filter_map, List.map_map]
    exact List.map_id _
  rw [hkept, hleaves]
  refine (hfar.filter _).trans (List.Perm.of_eq ?_)
  rw [List.filter_append, hinner]

theorem perm_sources_kept (g : Graph) :
    (((g.bundles .outward).flatMap (fun b => (g.withheld b).batch.edges)).map Edge.source ++
      g.feeds.map Prod.snd).Perm
        (((g.bundles .outward).flatMap (fun b => (g.outTree b).edges)).map Edge.source) := by
  rw [feeds, List.map_flatMap, List.map_flatMap, List.map_flatMap]
  refine (List.flatMap_append_perm _ _ _).trans (List.Perm.flatMap_left _ fun b _ => ?_)
  rw [withheld, Batch.edges_withhold, Batch.feeds_withhold, List.map_map]
  refine List.perm_append_comm.trans ?_
  have hsplit := (List.filter_append_perm
    (fun e => g.fannedIn.contains ⟨b.anchor, e.target⟩) (g.outTree b).edges).map Edge.source
  rwa [List.map_append] at hsplit

theorem perm_draws (hg : g.WellFormed) (hf : g.FreshPlan) :
    ((g.bundles .inward).flatMap (fun b => g.feeds.draw b.routes)).Perm
      (g.feeds.map Prod.snd ++ (g.dataRoutes.filter
        (fun r => !g.shared .outward r.source && g.shared .inward r.target)).map
          Route.source) := by
  have hzip : ((g.bundles .inward).flatMap (fun b => b.routes.zip (g.feeds.draw b.routes))).map
      Prod.snd = (g.bundles .inward).flatMap (fun b => g.feeds.draw b.routes) := by
    rw [List.map_flatMap]
    refine List.flatMap_congr fun b _ => List.map_snd_zip (Nat.le_of_eq ?_)
    exact Feeds.length_draw _ _
  rw [← hzip]
  refine ((perm_drawn hg hf).map Prod.snd).trans (List.Perm.of_eq ?_)
  rw [List.map_append, List.map_map]
  rfl

theorem perm_targets (hg : g.WellFormed) (hf : g.FreshPlan) :
    (((g.bundles .outward).flatMap (fun b => (g.withheld b).batch.edges)).map Edge.target).Perm
      ((g.dataRoutes.filter
        (fun r => !g.shared .inward r.target && g.shared .outward r.source)).map Route.target ++
          ((g.bundles .outward).flatMap (fun b => (g.outTree b).nodes)).flatMap
            (fun n => n.portsOn .input)) := by
  rw [List.map_flatMap, List.flatMap_assoc]
  refine (List.Perm.flatMap_left _ fun b hb => perm_targets_kept hg hf hb).trans ?_
  refine (List.flatMap_append_perm _ _ _).symm.trans (List.Perm.append_right _ ?_)
  rw [← List.map_flatMap, ← List.filter_flatMap]
  refine (((hg.perm_routes .outward).filter _).map _).trans (List.Perm.of_eq ?_)
  rw [List.filter_filter]
  congr 1
  apply List.filter_congr
  intro r hr
  rw [contains_fannedIn hg hr]
  rfl

theorem perm_sources_fanPlan (hg : g.WellFormed) (hf : g.FreshPlan) :
    (g.fanPlan.edges.map Edge.source).Perm ((g.bundles .outward).map Bundle.anchor ++
      (g.dataRoutes.filter
        (fun r => !g.shared .outward r.source && g.shared .inward r.target)).map Route.source ++
          g.fanPlan.nodes.flatMap (fun n => n.portsOn .output)) := by
  have hjoins : (((g.bundles .inward).flatMap (fun b => (g.inTree b).edges)).map
      Edge.source).Perm ((g.bundles .inward).flatMap (fun b => g.feeds.draw b.routes) ++
        ((g.bundles .inward).flatMap (fun b => (g.inTree b).nodes)).flatMap
          (fun n => n.portsOn .output)) :=
    perm_far_trees g .inward _ _ fun b _ => draw_ne_nil b g.feeds
  have htrees : (((g.bundles .outward).flatMap (fun b => (g.outTree b).edges)).map
      Edge.source).Perm ((g.bundles .outward).map Bundle.anchor ++
        ((g.bundles .outward).flatMap (fun b => (g.outTree b).nodes)).flatMap
          (fun n => n.portsOn .output)) :=
    perm_near_trees g .outward Bundle.peers _
  rw [edges_fanPlan, nodes_fanPlan, List.map_append, List.flatMap_append]
  apply List.perm_iff_count.mpr
  intro p
  have hj := hjoins.count_eq p
  have hd := (perm_draws hg hf).count_eq p
  have hk := (perm_sources_kept g).count_eq p
  have ht := htrees.count_eq p
  simp only [List.count_append] at hj hd hk ht ⊢
  omega

theorem perm_targets_fanPlan (hg : g.WellFormed) (hf : g.FreshPlan) :
    (g.fanPlan.edges.map Edge.target).Perm ((g.bundles .inward).map Bundle.anchor ++
      (g.dataRoutes.filter
        (fun r => !g.shared .inward r.target && g.shared .outward r.source)).map Route.target ++
          g.fanPlan.nodes.flatMap (fun n => n.portsOn .input)) := by
  have hjoins : (((g.bundles .inward).flatMap (fun b => (g.inTree b).edges)).map
      Edge.target).Perm ((g.bundles .inward).map Bundle.anchor ++
        ((g.bundles .inward).flatMap (fun b => (g.inTree b).nodes)).flatMap
          (fun n => n.portsOn .input)) :=
    perm_near_trees g .inward (fun b => g.feeds.draw b.routes) _
  rw [edges_fanPlan, nodes_fanPlan, List.map_append, List.flatMap_append]
  apply List.perm_iff_count.mpr
  intro p
  have hj := hjoins.count_eq p
  have hk := (perm_targets hg hf).count_eq p
  simp only [List.count_append] at hj hk ⊢
  omega

/-- The near ends of the planned edges: the anchors, the ports of the planned nodes, and the ends of
edges that are bundled at their far end alone, each once. -/
theorem perm_near_fanPlan (hg : g.WellFormed) (hf : g.FreshPlan) (d : Direction) :
    (g.fanPlan.edges.map d.near).Perm ((g.bundles d).map Bundle.anchor ++
      (g.dataRoutes.filter (fun r => !g.shared d (d.nearEnd r) &&
        g.shared d.opposite (d.farEnd r))).map d.nearEnd ++
          g.fanPlan.nodes.flatMap (fun n => n.portsOn d.side)) := by
  cases d with
  | outward => exact perm_sources_fanPlan hg hf
  | inward => exact perm_targets_fanPlan hg hf

theorem exists_connect_of_mem_fanPlan {e : Edge} (h : e ∈ g.fanPlan.edges) :
    ∃ (d : Direction) (near far : Port), e = d.connect near far := by
  rcases mem_edges_fanPlan.mp h with ⟨b, _, he⟩ | ⟨b, _, he, _⟩
  · exact ⟨_, FanTree.exists_connect_of_mem_batch he⟩
  · exact ⟨_, FanTree.exists_connect_of_mem_batch he⟩

theorem isContinuation_of_mem_fanPlan {e : Edge} (h : e ∈ g.fanPlan.edges) :
    e.isContinuation = false := by
  obtain ⟨d, near, far, rfl⟩ := exists_connect_of_mem_fanPlan h
  exact Direction.isContinuation_connect d near far

/-- The near ends of unshared edges, together with the shared ports, are all near ends without
repetition. -/
theorem perm_distinct_nearEnds (hg : g.WellFormed) (d : Direction) :
    ((g.nearEnds d).filter (fun p => !g.shared d p) ++ (g.bundles d).map Bundle.anchor).Perm
      (distinct (g.nearEnds d)) := by
  have hlone : ((g.nearEnds d).filter (fun p => !g.shared d p)).Nodup := by
    apply List.nodup_iff_count_le_one.mpr
    intro p
    cases hs : g.shared d p with
    | true =>
      rw [List.count_eq_zero_of_not_mem fun hm => by simp [hs] at hm]
      exact Nat.zero_le 1
    | false =>
      rw [List.count_filter (by simp [hs])]
      exact shared_eq_false_iff.mp hs
  refine (List.perm_ext_iff_of_nodup (List.nodup_append.mpr ⟨hlone, nodup_anchors, ?_⟩)
    (nodup_distinct _)).mpr fun p => ?_
  · intro p hp q hq heq
    subst heq
    have hs := hg.mem_anchors_iff.mp hq
    simp [hs] at hp
  · rw [List.mem_append, List.mem_filter, hg.mem_anchors_iff, mem_distinct]
    cases hs : g.shared d p with
    | true => simp [mem_nearEnds_of_shared hs]
    | false => simp

/-- An unshared near end belongs to an edge that stays or to one that is bundled at its far end. -/
theorem perm_unshared (g : Graph) (d : Direction) :
    ((g.dataEdges.filter (fun e => !g.bundled e)).map d.near ++
      (g.dataRoutes.filter (fun r => !g.shared d (d.nearEnd r) &&
        g.shared d.opposite (d.farEnd r))).map d.nearEnd).Perm
          ((g.nearEnds d).filter (fun p => !g.shared d p)) := by
  have hkept : (g.dataEdges.filter (fun e => !g.bundled e)).map d.near =
      (g.dataRoutes.filter (fun r => !g.shared d (d.nearEnd r) &&
        !g.shared d.opposite (d.farEnd r))).map d.nearEnd := by
    rw [dataRoutes, List.filter_map, List.map_map]
    simp only [Function.comp_def, Direction.nearEnd_route, Direction.farEnd_route]
    congr 1
    apply List.filter_congr
    intro e he
    rw [bundled, (mem_dataEdges.mp he).2]
    cases d with
    | outward => simp [Direction.near, Direction.far, Direction.opposite]
    | inward => simp [Direction.near, Direction.far, Direction.opposite, Bool.and_comm]
  have hlone : (g.nearEnds d).filter (fun p => !g.shared d p) =
      (g.dataRoutes.filter (fun r => !g.shared d (d.nearEnd r))).map d.nearEnd := by
    rw [nearEnds, List.filter_map]
    rfl
  have hsplit := (List.filter_append_perm (fun r => g.shared d.opposite (d.farEnd r))
    (g.dataRoutes.filter (fun r => !g.shared d (d.nearEnd r)))).map d.nearEnd
  rw [List.filter_filter, List.filter_filter, List.map_append] at hsplit
  rw [hkept, hlone]
  simp only [Bool.and_comm] at hsplit ⊢
  exact List.perm_append_comm.trans hsplit

/-- After the expansion each port that carries data carries exactly one edge: so do all ports of the
new nodes, and no others. -/
theorem perm_nearEnds_expandFans (hg : g.WellFormed) {c : Change}
    (h : g.expandFans.result = .ok c) (d : Direction) :
    (g.expandFans.graph.nearEnds d).Perm
      (distinct (g.nearEnds d) ++ g.fanPlan.nodes.flatMap (fun n => n.portsOn d.side)) := by
  have hrevision := revision_expandFans hg h
  have hf := freshPlan_of_expandFans hg h
  rw [hrevision.nearEnds_eq fun e => isContinuation_of_mem_fanPlan]
  apply List.perm_iff_count.mpr
  intro p
  have hplan := (perm_near_fanPlan hg hf d).count_eq p
  have hlone := (perm_unshared g d).count_eq p
  have hall := (perm_distinct_nearEnds hg d).count_eq p
  simp only [List.count_append] at hplan hlone hall ⊢
  omega

/-- No port of an expanded graph is shared any more. -/
theorem nodup_nearEnds_expandFans (hg : g.WellFormed) {c : Change}
    (h : g.expandFans.result = .ok c) (d : Direction) :
    (g.expandFans.graph.nearEnds d).Nodup := by
  rw [(perm_nearEnds_expandFans hg h d).nodup_iff, (revision_expandFans hg h).nodup_append_ports
    fun p hp => hg.contains_nearEnd (mem_distinct.mp hp)]
  exact nodup_distinct _

end Graph
end PortNet
