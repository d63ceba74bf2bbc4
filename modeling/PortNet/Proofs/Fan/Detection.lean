import Mathlib.Data.List.Perm.Basic
import PortNet.Fan.Bundle
import PortNet.Proofs.WellFormed

namespace PortNet

/-- Taking the members of a list key by key only changes their order. -/
theorem perm_flatMap_filter {α β : Type} [DecidableEq β] (key : α → β) (xs : List α)
    {keys : List β} (h : keys.Nodup) :
    (keys.flatMap (fun k => xs.filter (fun x => key x = k))).Perm
      (xs.filter (fun x => decide (key x ∈ keys))) := by
  induction keys with
  | nil => simp
  | cons k keys ih =>
    obtain ⟨hk, hs⟩ := List.nodup_cons.mp h
    have hsplit := List.filter_append_perm (fun x => decide (key x = k))
      (xs.filter (fun x => decide (key x ∈ k :: keys)))
    have hfirst : (xs.filter (fun x => decide (key x ∈ k :: keys))).filter
        (fun x => decide (key x = k)) = xs.filter (fun x => decide (key x = k)) := by
      rw [List.filter_filter]
      apply List.filter_congr
      intro x _
      by_cases hx : key x = k <;> simp [hx]
    have hrest : (xs.filter (fun x => decide (key x ∈ k :: keys))).filter
        (fun x => !decide (key x = k)) = xs.filter (fun x => decide (key x ∈ keys)) := by
      rw [List.filter_filter]
      apply List.filter_congr
      intro x _
      by_cases hx : key x = k
      · simp [hx, hk]
      · simp [hx]
    rw [hfirst, hrest] at hsplit
    rw [List.flatMap_cons]
    exact ((ih hs).append_left _).trans hsplit

namespace Direction

def opposite : Direction → Direction
  | outward => inward
  | inward => outward

/-- The end of a route at which a fan of this direction is shared, and the other one. -/
def nearEnd : Direction → Route → Port
  | outward, r => r.source
  | inward, r => r.target

def farEnd : Direction → Route → Port
  | outward, r => r.target
  | inward, r => r.source

@[simp] theorem nearEnd_route (d : Direction) (e : Edge) : d.nearEnd e.route = d.near e := by
  cases d <;> rfl

@[simp] theorem farEnd_route (d : Direction) (e : Edge) : d.farEnd e.route = d.far e := by
  cases d <;> rfl

@[simp] theorem route_ends (d : Direction) (r : Route) :
    d.route (d.nearEnd r) (d.farEnd r) = r := by
  cases d <;> rfl

end Direction

namespace Graph

def dataEdges (g : Graph) : List Edge := g.edges.filter (fun e => !e.isContinuation)

/-- The routes of the data edges, one for each edge. -/
def dataRoutes (g : Graph) : List Route := g.dataEdges.map Edge.route

/-- The near ends of the data edges, one for each edge. -/
def nearEnds (g : Graph) (d : Direction) : List Port := g.dataRoutes.map d.nearEnd

/-- Whether a port is the near end of two or more data edges. -/
def shared (g : Graph) (d : Direction) (p : Port) : Bool := 2 ≤ (g.nearEnds d).count p

/-- A data edge that shares its source or its target port with another data edge. -/
def bundled (g : Graph) (e : Edge) : Bool :=
  !e.isContinuation && (g.shared .outward e.source || g.shared .inward e.target)

/-- The routes of the data edges at a port. -/
def routesAt (g : Graph) (d : Direction) (p : Port) : List Route :=
  g.dataRoutes.filter (fun r => d.nearEnd r = p)

variable {g : Graph} {d : Direction} {p : Port} {r : Route} {b : Bundle} {e e' : Edge}

theorem mem_dataEdges :
    e ∈ g.dataEdges ↔ e ∈ g.edges ∧ e.isContinuation = false := by
  simp [dataEdges]

theorem mem_dataRoutes : r ∈ g.dataRoutes ↔ ∃ e ∈ g.dataEdges, e.route = r := List.mem_map

theorem mem_nearEnds : p ∈ g.nearEnds d ↔ ∃ r ∈ g.dataRoutes, d.nearEnd r = p := List.mem_map

theorem map_near_dataEdges (g : Graph) (d : Direction) :
    g.dataEdges.map d.near = g.nearEnds d := by
  rw [nearEnds, dataRoutes, List.map_map]
  simp only [Function.comp_def, Direction.nearEnd_route]

theorem mem_nearEnds_iff_edge : p ∈ g.nearEnds d ↔ ∃ e ∈ g.dataEdges, d.near e = p := by
  rw [← map_near_dataEdges, List.mem_map]

theorem length_routesAt : (g.routesAt d p).length = (g.nearEnds d).count p := by
  rw [routesAt, nearEnds, List.count, List.countP_map, List.countP_eq_length_filter]
  congr 1

theorem shared_iff : g.shared d p = true ↔ 2 ≤ (g.nearEnds d).count p := by
  simp [shared]

theorem shared_eq_false_iff : g.shared d p = false ↔ (g.nearEnds d).count p ≤ 1 := by
  simp only [shared, decide_eq_false_iff_not]
  omega

theorem mem_nearEnds_of_shared (h : g.shared d p = true) : p ∈ g.nearEnds d :=
  List.count_pos_iff.mp (Nat.lt_of_lt_of_le Nat.zero_lt_two (shared_iff.mp h))

theorem route_mem_routesAt (he : e ∈ g.dataEdges) :
    e.route ∈ g.routesAt d (d.near e) :=
  List.mem_filter.mpr ⟨mem_dataRoutes.mpr ⟨e, he, rfl⟩, decide_eq_true (d.nearEnd_route e)⟩

/-- At a port that is not shared there is only one route. -/
theorem routesAt_eq_singleton (he : e ∈ g.dataEdges)
    (hs : g.shared d (d.near e) = false) : g.routesAt d (d.near e) = [e.route] := by
  have hm : e.route ∈ g.routesAt d (d.near e) := route_mem_routesAt he
  have hlength : (g.routesAt d (d.near e)).length = 1 := by
    have hpos := List.length_pos_of_mem hm
    have hle := shared_eq_false_iff.mp hs
    rw [← length_routesAt] at hle
    omega
  obtain ⟨r, hr⟩ := List.length_eq_one_iff.mp hlength
  rw [hr, List.mem_singleton] at hm
  rw [hr, hm]

theorem route_eq_of_not_shared (he : e ∈ g.dataEdges) (he' : e' ∈ g.dataEdges)
    (hnear : d.near e' = d.near e) (hs : g.shared d (d.near e) = false) : e'.route = e.route := by
  have hm : e'.route ∈ g.routesAt d (d.near e') := route_mem_routesAt he'
  rwa [hnear, routesAt_eq_singleton he hs, List.mem_singleton] at hm

theorem route_eq_of_nodup (hn : (g.nearEnds d).Nodup) (he : e ∈ g.dataEdges)
    (he' : e' ∈ g.dataEdges) (hnear : d.near e' = d.near e) : e'.route = e.route :=
  route_eq_of_not_shared he he' hnear
    (shared_eq_false_iff.mpr (List.nodup_iff_count_le_one.mp hn _))

theorem bundled_eq (he : e.isContinuation = false) (d : Direction) :
    g.bundled e = (g.shared d (d.near e) || g.shared d.opposite (d.far e)) := by
  rw [bundled, he]
  cases d with
  | outward => rfl
  | inward => exact Bool.or_comm _ _

theorem bundled_congr (he : e.isContinuation = e'.isContinuation) (hr : e.route = e'.route) :
    g.bundled e = g.bundled e' := by
  obtain ⟨hs, ht⟩ := Route.mk.inj hr
  rw [bundled, bundled, he, hs, ht]

theorem bundled_eq_false (hn : ∀ d, (g.nearEnds d).Nodup) (e : Edge) : g.bundled e = false := by
  have hs : ∀ d p, g.shared d p = false := fun d p =>
    shared_eq_false_iff.mpr (List.nodup_iff_count_le_one.mp (hn d) p)
  rw [bundled, hs, hs, Bool.or_false, Bool.and_false]

theorem isContinuation_of_bundled (h : g.bundled e = true) : e.isContinuation = false := by
  simp only [bundled, Bool.and_eq_true, Bool.not_eq_true'] at h
  exact h.1

theorem map_farEnd_routesAt (g : Graph) (d : Direction) (p : Port) :
    (g.routesAt d p).map d.farEnd = (g.dataEdges.filter (fun e => d.near e = p)).map d.far := by
  rw [routesAt, dataRoutes, List.filter_map, List.map_map]
  simp only [Function.comp_def, Direction.nearEnd_route, Direction.farEnd_route]

/-- All data edges at the port are among those at its node. -/
theorem map_far_dataEdgesAt (p : Port) :
    ((g.dataEdgesAt d p.node).filter (fun e => d.near e = p)).map d.far =
      (g.routesAt d p).map d.farEnd := by
  have hsame : (g.dataEdgesAt d p.node).filter (fun e => d.near e = p) =
      g.dataEdges.filter (fun e => d.near e = p) := by
    rw [dataEdgesAt, dataEdges, List.filter_filter, List.filter_filter]
    apply List.filter_congr
    intro e _
    by_cases he : d.near e = p <;> simp [he]
  rw [hsame, map_farEnd_routesAt]

theorem bundleAt?_eq_some :
    g.bundleAt? d (g.dataEdgesAt d p.node) p = some b ↔
      b.direction = d ∧ b.anchor = p ∧ b.type? = g.portType? p d.side ∧
        b.peers = (g.routesAt d p).map d.farEnd := by
  obtain ⟨direction, anchor, type, peers, hshared⟩ := b
  simp only [bundleAt?, map_far_dataEdgesAt]
  constructor
  · intro h
    split at h
    · cases h
      exact ⟨rfl, rfl, rfl, rfl⟩
    · cases h
  · intro hall
    obtain ⟨rfl, rfl, rfl, rfl⟩ := hall
    rw [dif_pos hshared]

theorem near_of_mem_dataEdgesAt {node : NodeId} (h : e ∈ g.dataEdgesAt d node) :
    (d.near e).node = node := by
  have hp := (List.mem_filter.mp h).2
  simp only [Bool.and_eq_true, decide_eq_true_eq] at hp
  exact hp.2

/-- Fan detection finds one bundle for each shared port of a node and nothing else. -/
theorem mem_bundles :
    b ∈ g.bundles d ↔ g.contains b.anchor.node = true ∧ b.direction = d ∧
      b.type? = g.portType? b.anchor d.side ∧
      b.peers = (g.routesAt d b.anchor).map d.farEnd := by
  constructor
  · intro h
    obtain ⟨n, hn, hb⟩ := List.mem_flatMap.mp h
    obtain ⟨p, hp, hb⟩ := List.mem_filterMap.mp hb
    obtain ⟨e, he, rfl⟩ := List.mem_map.mp (mem_distinct.mp hp)
    have hnode := near_of_mem_dataEdgesAt he
    rw [← hnode] at hb
    obtain ⟨hd, ha, ht, hps⟩ := bundleAt?_eq_some.mp hb
    rw [ha]
    exact ⟨contains_iff.mpr ⟨n, hn, hnode.symm⟩, hd, ht, hps⟩
  · intro hall
    obtain ⟨hc, hd, ht, hps⟩ := hall
    obtain ⟨n, hn, hid⟩ := contains_iff.mp hc
    refine List.mem_flatMap.mpr ⟨n, hn, List.mem_filterMap.mpr ⟨b.anchor, ?_, ?_⟩⟩
    · obtain ⟨peer, hpeer⟩ := List.exists_mem_of_ne_nil _ b.peers_ne_nil
      rw [hps, ← map_far_dataEdgesAt] at hpeer
      obtain ⟨e, he, _⟩ := List.mem_map.mp hpeer
      obtain ⟨he, hnear⟩ := List.mem_filter.mp he
      rw [hid]
      exact mem_distinct.mpr (List.mem_map.mpr ⟨e, he, by simpa using hnear⟩)
    · rw [hid]
      exact bundleAt?_eq_some.mpr ⟨hd, rfl, ht, hps⟩

theorem routes_of_mem_bundles (h : b ∈ g.bundles d) : b.routes = g.routesAt d b.anchor := by
  obtain ⟨_, hd, _, hps⟩ := mem_bundles.mp h
  rw [Bundle.routes, hps, hd, List.map_map]
  refine (List.map_congr_left ?_).trans (List.map_id _)
  intro r hr
  have hnear : d.nearEnd r = b.anchor := by simpa using (List.mem_filter.mp hr).2
  simp [← hnear]

theorem mem_peers_iff (hb : b ∈ g.bundles d) :
    p ∈ b.peers ↔ ∃ e ∈ g.dataEdges, d.near e = b.anchor ∧ d.far e = p := by
  rw [(mem_bundles.mp hb).2.2.2, List.mem_map]
  constructor
  · intro hall
    obtain ⟨r, hr, rfl⟩ := hall
    obtain ⟨hr, hnear⟩ := List.mem_filter.mp hr
    obtain ⟨e, he, rfl⟩ := mem_dataRoutes.mp hr
    exact ⟨e, he, by simpa using hnear, (d.farEnd_route e).symm⟩
  · intro hall
    obtain ⟨e, he, hnear, rfl⟩ := hall
    exact ⟨e.route, hnear ▸ route_mem_routesAt he, d.farEnd_route e⟩

theorem mem_anchors :
    p ∈ (g.bundles d).map Bundle.anchor ↔ g.contains p.node = true ∧ g.shared d p = true := by
  rw [List.mem_map]
  constructor
  · intro hall
    obtain ⟨b, hb, rfl⟩ := hall
    obtain ⟨hc, _, _, hps⟩ := mem_bundles.mp hb
    refine ⟨hc, shared_iff.mpr ?_⟩
    have hshared := b.shared
    rwa [hps, List.length_map, length_routesAt] at hshared
  · intro hall
    obtain ⟨hc, hs⟩ := hall
    have hlength : 2 ≤ ((g.routesAt d p).map d.farEnd).length := by
      rw [List.length_map, length_routesAt]
      exact shared_iff.mp hs
    exact ⟨⟨d, p, g.portType? p d.side, _, hlength⟩, mem_bundles.mpr ⟨hc, rfl, rfl, rfl⟩, rfl⟩

theorem map_anchor_bundlesAt (node : NodeId) :
    (g.bundlesAt d node).map Bundle.anchor =
      (distinct ((g.dataEdgesAt d node).map d.near)).filter (g.shared d) := by
  rw [bundlesAt, List.map_filterMap, ← List.filterMap_eq_filter]
  apply List.filterMap_congr
  intro p hp
  obtain ⟨e, he, rfl⟩ := List.mem_map.mp (mem_distinct.mp hp)
  simp only [bundleAt?, ← near_of_mem_dataEdgesAt he, map_far_dataEdgesAt, List.length_map,
    length_routesAt]
  by_cases hs : 2 ≤ (g.nearEnds d).count (d.near e)
  · simp [hs, shared, Option.guard]
  · simp [hs, shared, Option.guard]

theorem node_of_mem_anchorsAt {node : NodeId}
    (h : p ∈ (g.bundlesAt d node).map Bundle.anchor) : p.node = node := by
  rw [map_anchor_bundlesAt] at h
  obtain ⟨e, he, rfl⟩ := List.mem_map.mp (mem_distinct.mp (List.mem_filter.mp h).1)
  exact near_of_mem_dataEdgesAt he

/-- No port is the anchor of two bundles. -/
theorem nodup_anchors : ((g.bundles d).map Bundle.anchor).Nodup := by
  rw [bundles, List.map_flatMap, List.nodup_flatMap]
  constructor
  · intro n _
    rw [map_anchor_bundlesAt]
    exact (nodup_distinct _).filter _
  · refine (List.pairwise_map.mp g.nodes.distinct).imp ?_
    intro m n hne p hm hn
    exact hne ((node_of_mem_anchorsAt hm).symm.trans (node_of_mem_anchorsAt hn))

/-- The bundles of one direction take up the data edges at the shared ports of nodes, each edge
once. -/
theorem perm_routes_bundles (g : Graph) (d : Direction) :
    ((g.bundles d).flatMap Bundle.routes).Perm (g.dataRoutes.filter (fun r =>
      g.contains (d.nearEnd r).node && g.shared d (d.nearEnd r))) := by
  have hroutes : (g.bundles d).flatMap Bundle.routes =
      ((g.bundles d).map Bundle.anchor).flatMap (g.routesAt d) := by
    rw [List.flatMap_map]
    exact List.flatMap_congr fun b hb => routes_of_mem_bundles hb
  rw [hroutes]
  refine (perm_flatMap_filter d.nearEnd g.dataRoutes nodup_anchors).trans (List.Perm.of_eq ?_)
  apply List.filter_congr
  intro r _
  rw [Bool.eq_iff_iff, decide_eq_true_eq, mem_anchors, Bool.and_eq_true]

theorem bundles_eq_nil_iff :
    g.bundles d = [] ↔ ∀ p, g.contains p.node = true → g.shared d p = false := by
  rw [← List.map_eq_nil_iff (f := Bundle.anchor), List.eq_nil_iff_forall_not_mem]
  simp only [mem_anchors, not_and, Bool.not_eq_true]

theorem bundles_eq_nil_of_nodup (h : (g.nearEnds d).Nodup) : g.bundles d = [] := by
  rw [bundles_eq_nil_iff]
  intro p _
  exact shared_eq_false_iff.mpr (List.nodup_iff_count_le_one.mp h p)

namespace WellFormed

theorem contains_near (hg : g.WellFormed) (he : e ∈ g.edges) (d : Direction) :
    g.contains (d.near e).node = true := by
  cases d with
  | outward => exact (hg.ends e he).1.contains
  | inward => exact (hg.ends e he).2.contains

theorem declares_nearEnd (hg : g.WellFormed) (h : p ∈ g.nearEnds d) : g.Declares p := by
  obtain ⟨e, he, rfl⟩ := mem_nearEnds_iff_edge.mp h
  obtain ⟨hs, ht⟩ := hg.ends e (mem_dataEdges.mp he).1
  cases d with
  | outward => exact hs
  | inward => exact ht

theorem contains_nearEnd (hg : g.WellFormed) (h : p ∈ g.nearEnds d) :
    g.contains p.node = true :=
  (hg.declares_nearEnd h).contains

theorem mem_anchors_iff (hg : g.WellFormed) :
    p ∈ (g.bundles d).map Bundle.anchor ↔ g.shared d p = true := by
  rw [mem_anchors]
  exact ⟨fun h => h.2, fun h => ⟨hg.contains_nearEnd (mem_nearEnds_of_shared h), h⟩⟩

/-- In a well-formed graph the bundles of one direction take up the data edges at shared ports, each
edge once. -/
theorem perm_routes (hg : g.WellFormed) (d : Direction) :
    ((g.bundles d).flatMap Bundle.routes).Perm
      (g.dataRoutes.filter (fun r => g.shared d (d.nearEnd r))) := by
  refine (perm_routes_bundles g d).trans (List.Perm.of_eq ?_)
  apply List.filter_congr
  intro r _
  rw [Bool.eq_iff_iff, Bool.and_eq_true, ← mem_anchors, hg.mem_anchors_iff]

theorem mem_routes_iff (hg : g.WellFormed) :
    r ∈ (g.bundles d).flatMap Bundle.routes ↔
      r ∈ g.dataRoutes ∧ g.shared d (d.nearEnd r) = true := by
  rw [(hg.perm_routes d).mem_iff, List.mem_filter]

theorem bundles_eq_nil_iff_nodup (hg : g.WellFormed) :
    g.bundles d = [] ↔ (g.nearEnds d).Nodup := by
  refine ⟨fun h => List.nodup_iff_count_le_one.mpr fun p => ?_, bundles_eq_nil_of_nodup⟩
  by_contra hmany
  have hs : g.shared d p = true := shared_iff.mpr (by omega)
  have ha := hg.mem_anchors_iff.mpr hs
  simp [h] at ha

end WellFormed
end Graph

/-- A batch of data edges adds its near ends to those of the edges that stay. -/
theorem Revision.nearEnds_eq {g g' : Graph} {keep : Edge → Bool} {batch : Batch} {d : Direction}
    (h : Revision g g' keep batch) (hdata : ∀ e ∈ batch.edges, e.isContinuation = false) :
    g'.nearEnds d = (g.dataEdges.filter keep).map d.near ++ batch.edges.map d.near := by
  have hnew : batch.edges.filter (fun e => !e.isContinuation) = batch.edges :=
    List.filter_eq_self.mpr fun e he => by rw [hdata e he]; rfl
  have hold : (g.edges.filter keep).filter (fun e => !e.isContinuation) =
      g.dataEdges.filter keep := by
    rw [Graph.dataEdges, List.filter_filter, List.filter_filter]
    simp only [Bool.and_comm]
  rw [Graph.nearEnds, Graph.dataRoutes, Graph.dataEdges, h.edges, List.filter_append, hold, hnew,
    List.map_map, List.map_append]
  simp only [Function.comp_def, Direction.nearEnd_route]

end PortNet
