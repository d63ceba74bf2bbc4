import Mathlib.Data.ENat.Basic
import PortNet.Proofs.Fan.Frame

namespace PortNet

namespace FanTree
variable {root : FanRoot} {t : FanTree} {p : Port} {leaving arriving : Port → ℕ∞}

/-- In a join tree all that leaves a leaf arrives at the root. -/
theorem leaving_of_mem_leaves
    (hedges : ∀ e ∈ (t.batch .inward root).edges, leaving e.source = arriving e.target)
    (hnodes : ∀ n ∈ (t.batch .inward root).nodes, ∀ p ∈ n.portsOn .input,
      arriving p = leaving ⟨n.id, "to"⟩)
    (hp : p ∈ t.leaves) : leaving p = arriving root.port := by
  induction t generalizing root with
  | leaf peer =>
    rw [leaves, List.mem_singleton] at hp
    rw [hp]
    exact hedges _ (List.mem_singleton.mpr rfl)
  | fork first last left right ihl ihr =>
    rw [batch_fork] at hedges hnodes
    have htop := hnodes _ List.mem_cons_self
    have htrunk := hedges _ (List.mem_append_right _ (List.mem_singleton.mpr rfl))
    rcases List.mem_append.mp hp with hp | hp
    · rw [ihl (fun e he => hedges e (List.mem_append_left _ (List.mem_append_left _ he)))
        (fun n hn => hnodes n (List.mem_cons_of_mem _ (List.mem_append_left _ hn))) hp]
      exact (htop _ (List.mem_cons_self)).trans htrunk
    · rw [ihr (fun e he => hedges e (List.mem_append_left _ (List.mem_append_right _ he)))
        (fun n hn => hnodes n (List.mem_cons_of_mem _ (List.mem_append_right _ hn))) hp]
      exact (htop _ (List.mem_cons_of_mem _ List.mem_cons_self)).trans htrunk

/-- In a duplicate tree all that leaves the root arrives at the leaves, summed up over them. -/
theorem leaving_root
    (hedges : ∀ e ∈ (t.batch .outward root).edges, leaving e.source = arriving e.target)
    (hnodes : ∀ n ∈ (t.batch .outward root).nodes,
      arriving ⟨n.id, "in"⟩ = leaving ⟨n.id, "d1"⟩ + leaving ⟨n.id, "d2"⟩) :
    leaving root.port = (t.leaves.map arriving).sum := by
  induction t generalizing root with
  | leaf peer =>
    rw [leaves, List.map_singleton, List.sum_singleton]
    exact hedges _ (List.mem_singleton.mpr rfl)
  | fork first last left right ihl ihr =>
    rw [batch_fork] at hedges hnodes
    have htop := hnodes _ List.mem_cons_self
    have htrunk := hedges _ (List.mem_append_right _ (List.mem_singleton.mpr rfl))
    have hl := ihl (fun e he => hedges e (List.mem_append_left _ (List.mem_append_left _ he)))
      (fun n hn => hnodes n (List.mem_cons_of_mem _ (List.mem_append_left _ hn)))
    have hr := ihr (fun e he => hedges e (List.mem_append_left _ (List.mem_append_right _ he)))
      (fun n hn => hnodes n (List.mem_cons_of_mem _ (List.mem_append_right _ hn)))
    rw [leaves, List.map_append, List.sum_append, ← hl, ← hr]
    exact htrunk.trans htop

end FanTree

/-- Weights on the ports of an expanded graph: what leaves a port, and what arrives at one. Along
an edge nothing is lost, a duplicate adds up what leaves its branches, and a join passes on what
arrives at any of its own. Of the ports of the old graph only `goal` counts what arrives. -/
structure Flow (g : Graph) (goal : Port) (leaving arriving : Port → ℕ∞) : Prop where
  edge : ∀ e ∈ g.expandFans.graph.dataEdges, leaving e.source = arriving e.target
  idle : ∀ p, p ∉ g.expandFans.graph.nearEnds .outward → leaving p = 0
  arrived : ∀ p, g.contains p.node = true → arriving p = if p = goal then 1 else 0
  duplicate : ∀ b ∈ g.bundles .outward, ∀ n ∈ (g.outTree b).nodes,
    arriving ⟨n.id, "in"⟩ = leaving ⟨n.id, "d1"⟩ + leaving ⟨n.id, "d2"⟩
  join : ∀ b ∈ g.bundles .inward, ∀ n ∈ (g.inTree b).nodes, ∀ p ∈ n.portsOn .input,
    arriving p = leaving ⟨n.id, "to"⟩

namespace Flow
variable {g : Graph} {goal p : Port} {leaving arriving : Port → ℕ∞} {b : Bundle} {e : Edge}
  {c : Change}

theorem planned (hw : Flow g goal leaving arriving) (hg : g.WellFormed)
    (h : g.expandFans.result = .ok c) (he : e ∈ g.fanPlan.edges) :
    leaving e.source = arriving e.target :=
  hw.edge e (Graph.mem_dataEdges_of_mem_fanPlan hg h he)

/-- Whatever a join draws leads to its anchor. -/
theorem drawn (hw : Flow g goal leaving arriving) (hg : g.WellFormed)
    (h : g.expandFans.result = .ok c) (hb : b ∈ g.bundles .inward)
    (hp : p ∈ g.feeds.draw b.routes) : leaving p = arriving b.anchor := by
  have hedges : ∀ e ∈ (g.inTree b).edges, leaving e.source = arriving e.target := fun e he =>
    hw.planned hg h (Graph.mem_edges_fanPlan.mpr (.inl ⟨_, hb, he⟩))
  rw [← FanTree.leaves_spanning (Graph.draw_ne_nil b g.feeds)] at hp
  exact FanTree.leaving_of_mem_leaves hedges (hw.join b hb) hp

/-- An edge of a duplicate tree that is held back is made up for by a join. -/
theorem outTree (hw : Flow g goal leaving arriving) (hg : g.WellFormed)
    (h : g.expandFans.result = .ok c) (hb : b ∈ g.bundles .outward)
    (he : e ∈ (g.outTree b).edges) : leaving e.source = arriving e.target := by
  have hf := Graph.freshPlan_of_expandFans hg h
  cases hheld : g.fannedIn.contains ⟨b.anchor, e.target⟩ with
  | false => exact hw.planned hg h (Graph.mem_edges_fanPlan.mpr (.inr ⟨_, hb, he, hheld⟩))
  | true =>
    have hfeed := Graph.mem_feeds.mpr ⟨b, hb, e, he, hheld, rfl⟩
    have hshared := ((Graph.mem_fannedIn hg).mp (List.contains_iff_mem.mp hheld)).2
    obtain ⟨a, ha, hanchor⟩ := List.mem_map.mp (hg.mem_anchors_iff.mpr hshared)
    have hzip := (Graph.mem_zip_draw hg hf ha).mpr (.inl ⟨hfeed, hanchor.symm⟩)
    rw [hw.drawn hg h ha (List.of_mem_zip hzip).2, hanchor]

/-- An edge at a source of its own stays, or is the only one there to enter a join. -/
theorem unshared (hw : Flow g goal leaving arriving) (hg : g.WellFormed)
    (h : g.expandFans.result = .ok c) (he : e ∈ g.dataEdges)
    (hs : g.shared .outward e.source = false) : leaving e.source = arriving e.target := by
  have hrevision := Graph.revision_expandFans hg h
  obtain ⟨hedge, hdata⟩ := Graph.mem_dataEdges.mp he
  cases ht : g.shared .inward e.target with
  | false =>
    apply hw.edge
    refine Graph.mem_dataEdges.mpr ⟨hrevision.mem_edges_iff.mpr (.inl ⟨hedge, ?_⟩), hdata⟩
    simp [Graph.bundled, hs, ht]
  | true =>
    obtain ⟨b, hb, hanchor⟩ := List.mem_map.mp (hg.mem_anchors_iff.mpr ht)
    have hroute : e.route ∈ b.routes := by
      rw [Graph.routes_of_mem_bundles hb, hanchor]
      exact Graph.route_mem_routesAt he
    have hzip := (Graph.perm_drawn_at hg (Graph.freshPlan_of_expandFans hg h) hb).mem_iff.mpr
      (List.mem_append_right _ (List.mem_map.mpr
        ⟨e.route, List.mem_filter.mpr ⟨hroute, by simp [Edge.route, hs]⟩, rfl⟩))
    rw [← hanchor]
    exact hw.drawn hg h hb (List.of_mem_zip hzip).2

/-- What leaves an old port is what arrives at the targets of its old edges. -/
theorem leaving_eq_sum (hw : Flow g goal leaving arriving) (hg : g.WellFormed)
    (h : g.expandFans.result = .ok c) (hp : g.contains p.node = true) :
    leaving p = ((g.routesAt .outward p).map (fun r => arriving r.target)).sum := by
  cases hs : g.shared .outward p with
  | true =>
    obtain ⟨b, hb, rfl⟩ := List.mem_map.mp (hg.mem_anchors_iff.mpr hs)
    have hroot : leaving b.anchor = ((FanTree.spanning b.peers).leaves.map arriving).sum :=
      FanTree.leaving_root (fun e he => hw.outTree hg h hb he) (hw.duplicate b hb)
    rw [FanTree.leaves_spanning b.peers_ne_nil, (Graph.mem_bundles.mp hb).2.2.2,
      List.map_map] at hroot
    exact hroot
  | false =>
    by_cases hm : p ∈ g.nearEnds .outward
    · obtain ⟨e, he, rfl⟩ := Graph.mem_nearEnds_iff_edge.mp hm
      rw [Graph.routesAt_eq_singleton he hs, List.map_singleton, List.sum_singleton]
      exact hw.unshared hg h he hs
    · have hnone : g.routesAt .outward p = [] := by
        rw [← List.length_eq_zero_iff, Graph.length_routesAt]
        exact List.count_eq_zero_of_not_mem hm
      rw [hnone, List.map_nil, List.sum_nil]
      apply hw.idle
      rw [(Graph.perm_nearEnds_expandFans hg h .outward).mem_iff, List.mem_append, mem_distinct]
      intro hall
      rcases hall with hm' | hm'
      · exact hm hm'
      · obtain ⟨n, hn, hport⟩ := List.mem_flatMap.mp hm'
        rw [Node.node_of_mem_portsOn hport] at hp
        exact (Graph.revision_expandFans hg h).fresh hn hp

/-- Counting the members with a property one by one. -/
theorem sum_map_ite {α : Type} (q : α → Prop) [DecidablePred q] (xs : List α) :
    (xs.map (fun x => if q x then (1 : ℕ∞) else 0)).sum = (xs.countP (fun x => q x) : ℕ) := by
  induction xs with
  | nil => rfl
  | cons x xs ih =>
    rw [List.map_cons, List.sum_cons, ih, List.countP_cons]
    by_cases hx : q x
    · simp [hx, add_comm]
    · simp [hx]

/-- Of what leaves an old port, each old data edge to the goal contributes one. -/
theorem leaving_eq (hw : Flow g goal leaving arriving) (hg : g.WellFormed)
    (h : g.expandFans.result = .ok c) (hp : g.contains p.node = true) :
    leaving p = (g.dataRoutes.count ⟨p, goal⟩ : ℕ) := by
  have hsum : (g.routesAt .outward p).map (fun r => arriving r.target) =
      (g.routesAt .outward p).map (fun r => if r.target = goal then 1 else 0) := by
    apply List.map_congr_left
    intro r hr
    have hr := (List.mem_filter.mp hr).1
    exact hw.arrived r.target
      (hg.contains_nearEnd (Graph.mem_nearEnds.mpr ⟨r, hr, rfl⟩ : r.target ∈ g.nearEnds .inward))
  rw [hw.leaving_eq_sum hg h hp, hsum, sum_map_ite, Graph.routesAt, List.countP_filter]
  congr 1
  apply List.countP_congr
  intro r _
  simp only [Bool.and_eq_true, decide_eq_true_eq, beq_iff_eq, Direction.nearEnd]
  constructor
  · intro hall
    obtain ⟨rfl, hsource⟩ := hall
    rw [← of_decide_eq_true hsource]
  · intro heq
    subst heq
    exact ⟨rfl, decide_eq_true rfl⟩

end Flow
end PortNet
