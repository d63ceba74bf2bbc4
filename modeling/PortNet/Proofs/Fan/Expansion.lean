import Mathlib.Data.List.Perm.Basic
import PortNet.Proofs.Fan.Crossing

namespace PortNet

namespace Graph

/-- The routes of all inward bundles. -/
def fannedIn (g : Graph) : List Route := (g.bundles .inward).flatMap Bundle.routes

/-- The root of the tree for a bundle. -/
def rootOf (g : Graph) (b : Bundle) : FanRoot :=
  ⟨b.anchor, b.type?.getD default, (g.fanScope b.anchor.node b.lastPeer.node).toOption.join⟩

/-- The whole duplicate tree of an outward bundle, with the leaves that are held back later. -/
def outTree (g : Graph) (b : Bundle) : Batch :=
  (FanTree.spanning b.peers).batch .outward (g.rootOf b)

def withheld (g : Graph) (b : Bundle) : Withheld := (g.outTree b).withhold b.anchor g.fannedIn

def feeds (g : Graph) : Feeds := (g.bundles .outward).flatMap (fun b => (g.withheld b).feeds)

def inTree (g : Graph) (b : Bundle) : Batch :=
  (FanTree.spanning (g.feeds.draw b.routes)).batch .inward (g.rootOf b)

/-- What a successful expansion adds, as a function of the graph alone. -/
def fanPlan (g : Graph) : Batch :=
  .concat ((g.bundles .inward).map g.inTree ++
    (g.bundles .outward).map (fun b => (g.withheld b).batch))

variable {g : Graph} {b : Bundle} {d : Direction} {p : Port} {e : Edge}

theorem draw_ne_nil (b : Bundle) (feeds : Feeds) : feeds.draw b.routes ≠ [] := by
  apply List.ne_nil_of_length_pos
  rw [Feeds.length_draw, Bundle.routes, List.length_map]
  exact List.length_pos_iff.mpr b.peers_ne_nil

/-- A tree at an existing anchor is put beside it if the last peer is a neighbour of the anchor or
its scope, and into it otherwise. -/
theorem fanScope_eq {anchor last : NodeId} (ha : g.contains anchor = true)
    (hl : g.contains last = true) : g.fanScope anchor last =
      .ok (if g.parent? anchor = g.parent? last ∨ g.parent? anchor = some last then
        g.parent? anchor else some anchor) := by
  have hfind : [anchor, last].find? (fun id => !g.contains id) = none := by simp [ha, hl]
  simp only [fanScope, hfind]
  by_cases hsame : g.parent? anchor = g.parent? last
  · rw [if_pos hsame, if_pos (.inl hsame)]
  · rw [if_neg hsame]
    by_cases hscope : g.parent? anchor = some last
    · rw [if_pos hscope, if_pos (.inr hscope), hscope]
    · rw [if_neg hscope, if_neg (not_or.mpr ⟨hsame, hscope⟩)]

namespace WellFormed

theorem contains_peer (hg : g.WellFormed) (hb : b ∈ g.bundles d) (hp : p ∈ b.peers) :
    g.contains p.node = true := by
  rw [(mem_bundles.mp hb).2.2.2] at hp
  obtain ⟨r, hr, rfl⟩ := List.mem_map.mp hp
  have hmem : d.farEnd r ∈ g.nearEnds d.opposite :=
    mem_nearEnds.mpr ⟨r, (List.mem_filter.mp hr).1, by cases d <;> rfl⟩
  exact hg.contains_nearEnd hmem

theorem declares_anchor (hg : g.WellFormed) (hb : b ∈ g.bundles d) : g.Declares b.anchor := by
  have hshared := hg.mem_anchors_iff.mp (List.mem_map.mpr ⟨b, hb, rfl⟩)
  exact hg.declares_nearEnd (mem_nearEnds_of_shared hshared)

theorem contains_lastPeer (hg : g.WellFormed) (hb : b ∈ g.bundles d) :
    g.contains b.lastPeer.node = true :=
  hg.contains_peer hb (List.getLast_mem b.peers_ne_nil)

/-- Every bundle has a type and a scope for its tree. -/
theorem fanRoot_eq (hg : g.WellFormed) (hb : b ∈ g.bundles d) :
    g.fanRoot b = .ok (g.rootOf b) := by
  obtain ⟨hc, _, ht, _⟩ := mem_bundles.mp hb
  obtain ⟨type, htype⟩ := (hg.declares_anchor hb).exists_portType d.side
  rw [fanRoot, rootOf, ht, htype, fanScope_eq hc (hg.contains_lastPeer hb)]
  rfl

theorem duplicateTree_eq (hg : g.WellFormed) (hb : b ∈ g.bundles .outward) :
    g.duplicateTree g.fannedIn b = .ok (g.withheld b) := by
  rw [duplicateTree, hg.fanRoot_eq hb]
  simp only [bind, Except.bind, FanTree.tree_eq_spanning b.peers_ne_nil]
  rfl

theorem joinTree_eq (hg : g.WellFormed) (hb : b ∈ g.bundles .inward) :
    g.joinTree g.feeds b = .ok (g.inTree b) := by
  rw [joinTree, hg.fanRoot_eq hb]
  exact FanTree.tree_eq_spanning (draw_ne_nil b g.feeds) .inward (g.rootOf b)

/-- The trees for the fans of a well-formed graph can always be built. -/
theorem fanBatch_eq (hg : g.WellFormed) : g.fanBatch = .ok g.fanPlan := by
  have hfeeds : ((g.bundles .outward).map g.withheld).flatMap Withheld.feeds = g.feeds := by
    rw [List.flatMap_map]
    rfl
  have hduplicates := mapM_eq_map fun b hb => hg.duplicateTree_eq (b := b) hb
  have hjoins := mapM_eq_map fun b hb => hg.joinTree_eq (b := b) hb
  rw [fanBatch, ← fannedIn, hduplicates]
  simp only [bind, Except.bind, hfeeds, hjoins, List.map_map]
  rfl

theorem expandFans_eq (hg : g.WellFormed) : g.expandFans = g.replaceRoutes
    ((g.bundles .outward ++ g.bundles .inward).flatMap Bundle.routes) g.fanPlan := by
  rw [expandFans, hg.fanBatch_eq]

end WellFormed

/-- The edges that stay are those outside of every bundle. -/
theorem offRoutes_bundles (hg : g.WellFormed) (he : e ∈ g.edges) :
    offRoutes ((g.bundles .outward ++ g.bundles .inward).flatMap Bundle.routes) e =
      !g.bundled e := by
  cases hc : e.isContinuation with
  | true => simp [offRoutes, bundled, hc]
  | false =>
    have hr : e.route ∈ g.dataRoutes :=
      mem_dataRoutes.mpr ⟨e, mem_dataEdges.mpr ⟨he, hc⟩, rfl⟩
    have hmem : e.route ∈ (g.bundles .outward ++ g.bundles .inward).flatMap Bundle.routes ↔
        g.shared .outward e.source = true ∨ g.shared .inward e.target = true := by
      rw [List.flatMap_append, List.mem_append, hg.mem_routes_iff, hg.mem_routes_iff]
      exact or_congr (and_iff_right hr) (and_iff_right hr)
    rw [offRoutes, bundled, hc, Bool.not_inj_iff, Bool.eq_iff_iff]
    simp only [Bool.not_false, Bool.true_and, List.contains_iff_mem, hmem, Bool.or_eq_true]

/-- Expanding fans takes out the bundled edges and adds the planned trees. -/
theorem revision_expandFans (hg : g.WellFormed) {c : Change} (h : g.expandFans.result = .ok c) :
    Revision g g.expandFans.graph (fun e => !g.bundled e) g.fanPlan := by
  rw [hg.expandFans_eq] at h ⊢
  have hrevision := revision_replaceRoutes h
  refine ⟨hrevision.nodes, ?_, hrevision.extras⟩
  rw [hrevision.edges, List.filter_congr fun e he => offRoutes_bundles hg he]

/-- The expansion of the fans of a well-formed graph is stopped by nothing but an id. -/
theorem expandFans_error (hg : g.WellFormed) {problem : Problem}
    (h : g.expandFans.result = .error problem) :
    ∃ id, problem = .idInUse id ∧ ¬ (g.ids ++ g.fanPlan.ids).Nodup := by
  rw [hg.expandFans_eq] at h
  exact (replaceRoutes_error h).2

/-- Without bundles there is nothing to expand. -/
theorem expandFans_of_none (h : ∀ d, g.bundles d = []) : g.expandFans = ⟨g, .ok {}⟩ := by
  have hbatch : g.fanBatch = .ok {} := by
    rw [fanBatch, h .inward, h .outward]
    rfl
  have hkeep : g.dropEdges (fun e => !e.isContinuation && ([] : List Route).contains e.route) =
      g := by
    simp [dropEdges]
  simp only [expandFans, hbatch, h, List.append_nil, List.flatMap_nil, replaceRoutes, clash?, addNew,
    Table.addUntilTaken, Option.map_none, hkeep, List.length_nil, Nat.sub_self]

theorem nodes_fanPlan : g.fanPlan.nodes =
    (g.bundles .inward).flatMap (fun b => (g.inTree b).nodes) ++
      (g.bundles .outward).flatMap (fun b => (g.outTree b).nodes) := by
  simp [fanPlan, withheld, List.flatMap_map]

theorem ids_fanPlan (g : Graph) : g.fanPlan.ids =
    (g.bundles .inward).flatMap (fun b => (g.inTree b).ids) ++
      (g.bundles .outward).flatMap (fun b => (g.outTree b).ids) := by
  rw [Batch.ids, nodes_fanPlan, List.map_append, List.map_flatMap, List.map_flatMap]
  rfl

theorem edges_fanPlan : g.fanPlan.edges =
    (g.bundles .inward).flatMap (fun b => (g.inTree b).edges) ++
      (g.bundles .outward).flatMap (fun b => (g.withheld b).batch.edges) := by
  simp [fanPlan, List.flatMap_map]

theorem mem_nodes_of_inTree (hb : b ∈ g.bundles .inward) {n : Node}
    (hn : n ∈ (g.inTree b).nodes) : n ∈ g.fanPlan.nodes := by
  rw [nodes_fanPlan]
  exact List.mem_append_left _ (List.mem_flatMap.mpr ⟨b, hb, hn⟩)

theorem mem_nodes_of_outTree (hb : b ∈ g.bundles .outward) {n : Node}
    (hn : n ∈ (g.outTree b).nodes) : n ∈ g.fanPlan.nodes := by
  rw [nodes_fanPlan]
  exact List.mem_append_right _ (List.mem_flatMap.mpr ⟨b, hb, hn⟩)

/-- Every planned node is the two-way node of some bundle. -/
theorem exists_twoWay_of_mem_fanPlan {n : Node} (h : n ∈ g.fanPlan.nodes) : ∃ d, ∃ b ∈ g.bundles d,
    n = Synthesis.twoWay d n.id (g.rootOf b).type (g.rootOf b).scope := by
  rw [nodes_fanPlan, List.mem_append, List.mem_flatMap, List.mem_flatMap] at h
  rcases h with ⟨b, hb, hn⟩ | ⟨b, hb, hn⟩
  · exact ⟨.inward, b, hb, FanTree.eq_twoWay_of_mem_batch hn⟩
  · exact ⟨.outward, b, hb, FanTree.eq_twoWay_of_mem_batch hn⟩

/-- The planned edges are those of the join trees and, unless they stand for a fanned-in route,
those of the duplicate trees. -/
theorem mem_edges_fanPlan : e ∈ g.fanPlan.edges ↔
    (∃ b ∈ g.bundles .inward, e ∈ (g.inTree b).edges) ∨ ∃ b ∈ g.bundles .outward,
      e ∈ (g.outTree b).edges ∧ g.fannedIn.contains ⟨b.anchor, e.target⟩ = false := by
  simp only [edges_fanPlan, List.mem_append, List.mem_flatMap, withheld, Batch.edges_withhold,
    List.mem_filter, Bool.not_eq_true']

end Graph
end PortNet
