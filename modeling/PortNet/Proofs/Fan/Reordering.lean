import PortNet.Proofs.Fan.Expansion
import PortNet.Proofs.Reordering

namespace PortNet

/-- Members with one key all come from the parts with that anchor. -/
theorem filter_flatMap_eq {α β κ : Type} [DecidableEq κ] {anchor : α → κ} {key : β → κ}
    {part : α → List β} {xs : List α} (hkey : ∀ x ∈ xs, ∀ b ∈ part x, key b = anchor x) (k : κ) :
    (xs.flatMap part).filter (fun b => key b = k) =
      (xs.filter (fun x => anchor x = k)).flatMap part := by
  induction xs with
  | nil => rfl
  | cons x xs ih =>
    have hx := hkey x List.mem_cons_self
    rw [List.flatMap_cons, List.filter_append, ih fun y hy => hkey y (List.mem_cons_of_mem _ hy)]
    by_cases h : anchor x = k
    · rw [List.filter_cons_of_pos (by simpa using h), List.flatMap_cons,
        List.filter_eq_self.mpr fun b hb => by simpa [hx b hb] using h]
    · rw [List.filter_cons_of_neg (by simpa using h),
        List.filter_eq_nil_iff.mpr fun b hb => by simpa [hx b hb] using h, List.nil_append]

/-- No two members have the same anchor, so at most one of them has a given one. -/
theorem length_filter_le_one {α κ : Type} [DecidableEq κ] {anchor : α → κ} {xs : List α}
    (hnodup : (xs.map anchor).Nodup) (k : κ) :
    (xs.filter (fun x => anchor x = k)).length ≤ 1 := by
  have hcount := List.nodup_iff_count_le_one.mp hnodup k
  rwa [List.count, List.countP_map, List.countP_eq_length_filter] at hcount

/-- So the order of the parts does not show in the members with one key. -/
theorem filter_flatMap_of_perm {α β κ : Type} [DecidableEq κ] {anchor : α → κ} (key : β → κ)
    {part : α → List β} {xs ys : List α} (hkey : ∀ x ∈ xs, ∀ b ∈ part x, key b = anchor x)
    (hperm : xs.Perm ys) (hnodup : (xs.map anchor).Nodup) (k : κ) :
    (xs.flatMap part).filter (fun b => key b = k) =
      (ys.flatMap part).filter (fun b => key b = k) := by
  have hsame : xs.filter (fun x => anchor x = k) = ys.filter (fun x => anchor x = k) := by
    have hfilter := hperm.filter (fun x => anchor x = k)
    match hxs : xs.filter (fun x => anchor x = k), length_filter_le_one hnodup k with
    | [], _ =>
      rw [hxs] at hfilter
      exact (List.nil_perm.mp hfilter).symm
    | [x], _ =>
      rw [hxs] at hfilter
      exact (List.perm_singleton.mp hfilter.symm).symm
  rw [filter_flatMap_eq hkey, hsame,
    ← filter_flatMap_eq fun x hx => hkey x (hperm.mem_iff.mpr hx)]

namespace Feeds
variable {feeds feeds' : Feeds}

/-- The feeds for a route are among those that start at its source. -/
theorem filter_route (feeds : Feeds) (r : Route) : feeds.filter (fun f => f.1 = r) =
    (feeds.filter (fun f => f.1.source = r.source)).filter (fun f => f.1 = r) := by
  rw [List.filter_filter]
  apply List.filter_congr
  intro f _
  by_cases hf : f.1 = r
  · simp [hf]
  · simp [hf]

/-- Handing out a feed takes away the first one for its route. -/
theorem filter_eraseP (feeds : Feeds) (r q : Route) :
    (feeds.eraseP (fun f => f.1 = r)).filter (fun f => f.1 = q) =
      if q = r then (feeds.filter (fun f => f.1 = q)).tail
      else feeds.filter (fun f => f.1 = q) := by
  induction feeds with
  | nil => simp
  | cons f feeds ih =>
    by_cases hr : f.1 = r
    · by_cases hq : q = r
      · simp [hr, hq]
      · simp [hr, hq, Ne.symm hq]
    · rw [List.eraseP_cons_of_neg (by simpa using hr), List.filter_cons, List.filter_cons, ih]
      by_cases hq : q = r
      · simp [hr, hq]
      · simp [hq]

/-- What is drawn for a list of routes depends on the order of the feeds of each route alone. -/
theorem draw_congr (h : ∀ r, feeds.filter (fun f => f.1 = r) = feeds'.filter (fun f => f.1 = r))
    (rs : List Route) : feeds.draw rs = feeds'.draw rs := by
  induction rs generalizing feeds feeds' with
  | nil => rfl
  | cons r rs ih =>
    have hfind : feeds.find? (fun f => f.1 = r) = feeds'.find? (fun f => f.1 = r) := by
      rw [← List.head?_filter, h, List.head?_filter]
    have hrest : ∀ q, (feeds.eraseP (fun f => f.1 = r)).filter (fun f => f.1 = q) =
        (feeds'.eraseP (fun f => f.1 = r)).filter (fun f => f.1 = q) := fun q => by
      rw [filter_eraseP, filter_eraseP, h]
    rw [draw, draw, hfind, ih hrest, ih h]

end Feeds

theorem Graph.source_of_mem_withheld {g : Graph} {b : Bundle} {f : Route × Port}
    (hf : f ∈ (g.withheld b).feeds) : f.1.source = b.anchor := by
  rw [withheld, Batch.feeds_withhold] at hf
  obtain ⟨e, _, rfl⟩ := List.mem_map.mp hf
  rfl

namespace Graph.Reordered
variable {g g' : Graph} {d : Direction} {b : Bundle}

theorem perm_dataRoutes (h : g.Reordered g') : g.dataRoutes.Perm g'.dataRoutes :=
  (h.edges.filter _).map _

theorem shared_eq (h : g.Reordered g') (d : Direction) (p : Port) :
    g'.shared d p = g.shared d p := by
  rw [shared, shared, nearEnds, nearEnds, (h.perm_dataRoutes.map d.nearEnd).count_eq]

theorem bundled_eq (h : g.Reordered g') (e : Edge) : g'.bundled e = g.bundled e := by
  rw [bundled, bundled, h.shared_eq, h.shared_eq]

/-- With the edges in one order, the same bundles are found, if in another order. -/
theorem perm_bundles (h : g.Reordered g') (hedges : g'.edges = g.edges) (d : Direction) :
    (g.bundles d).Perm (g'.bundles d) := by
  refine (List.perm_ext_iff_of_nodup nodup_anchors.of_map nodup_anchors.of_map).mpr fun b => ?_
  have hroutes : g'.routesAt d b.anchor = g.routesAt d b.anchor := by
    rw [routesAt, dataRoutes, dataEdges, hedges, routesAt, dataRoutes, dataEdges]
  rw [mem_bundles, mem_bundles, h.contains_eq, h.portType?_eq, hroutes]

theorem rootOf_eq (h : g.Reordered g') (b : Bundle) : g'.rootOf b = g.rootOf b := by
  simp only [rootOf, fanScope, h.contains_eq, h.parent?_eq]

theorem fannedIn_contains_eq (h : g.Reordered g') (hedges : g'.edges = g.edges) (r : Route) :
    g'.fannedIn.contains r = g.fannedIn.contains r := by
  rw [Bool.eq_iff_iff, List.contains_iff_mem, List.contains_iff_mem]
  exact ((h.perm_bundles hedges .inward).flatMap_right _).mem_iff.symm

theorem outTree_eq (h : g.Reordered g') (b : Bundle) : g'.outTree b = g.outTree b := by
  rw [outTree, h.rootOf_eq, outTree]

theorem withheld_eq (h : g.Reordered g') (hedges : g'.edges = g.edges) (b : Bundle) :
    g'.withheld b = g.withheld b := by
  simp only [withheld, Batch.withhold, h.outTree_eq, h.fannedIn_contains_eq hedges]

/-- The feeds for a route are those of one tree. -/
theorem filter_feeds_eq (h : g.Reordered g') (hedges : g'.edges = g.edges) (r : Route) :
    g'.feeds.filter (fun f => f.1 = r) = g.feeds.filter (fun f => f.1 = r) := by
  rw [Feeds.filter_route g'.feeds, Feeds.filter_route g.feeds]
  congr 1
  simp only [feeds, h.withheld_eq hedges]
  exact (filter_flatMap_of_perm (fun f : Route × Port => f.1.source)
    (fun _ _ _ => source_of_mem_withheld) (h.perm_bundles hedges .outward) nodup_anchors _).symm

theorem inTree_eq (h : g.Reordered g') (hedges : g'.edges = g.edges) (b : Bundle) :
    g'.inTree b = g.inTree b := by
  rw [inTree, h.rootOf_eq, Feeds.draw_congr (h.filter_feeds_eq hedges), inTree]

theorem perm_nodes_fanPlan (h : g.Reordered g') (hedges : g'.edges = g.edges) :
    g.fanPlan.nodes.Perm g'.fanPlan.nodes := by
  simp only [nodes_fanPlan, h.inTree_eq hedges, h.outTree_eq]
  exact ((h.perm_bundles hedges .inward).flatMap_right _).append
    ((h.perm_bundles hedges .outward).flatMap_right _)

theorem perm_edges_fanPlan (h : g.Reordered g') (hedges : g'.edges = g.edges) :
    g.fanPlan.edges.Perm g'.fanPlan.edges := by
  simp only [edges_fanPlan, h.inTree_eq hedges, h.withheld_eq hedges]
  exact ((h.perm_bundles hedges .inward).flatMap_right _).append
    ((h.perm_bundles hedges .outward).flatMap_right _)

end Graph.Reordered
end PortNet
