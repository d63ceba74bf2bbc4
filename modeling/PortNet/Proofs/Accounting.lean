import Mathlib.Data.List.Basic
import PortNet.Proofs.Bridging
import PortNet.Proofs.Draining
import PortNet.Proofs.Fan.JoinOrder
import PortNet.Proofs.Normalization.Stage

namespace PortNet

/-- What passes one of two tests, and what passes both, is as much as passes the one and as passes
the other. -/
theorem length_filter_or_add_and {α : Type} (p q : α → Bool) (xs : List α) :
    (xs.filter (fun x => p x || q x)).length + (xs.filter (fun x => p x && q x)).length =
      (xs.filter p).length + (xs.filter q).length := by
  induction xs with
  | nil => rfl
  | cons x xs ih =>
    simp only [List.filter_cons]
    cases hp : p x <;> cases hq : q x <;>
      simp only [Bool.or_self, Bool.or_true, Bool.or_false, Bool.and_self, Bool.and_true,
        Bool.and_false, Bool.false_eq_true, if_true, if_false, List.length_cons] <;> omega

/-- The numbers of a change are those of what was added to a graph and what was taken out of it, and
so tell the size of the result. They are all zero exactly if the graph is the old one. -/
structure Change.Exact (c : Change) (g g' : Graph) : Prop where
  counted : ∃ keep batch, Revision g g' keep batch ∧
    c = ⟨batch.nodes.length, (g.edges.filter (fun e => !keep e)).length, batch.edges.length⟩
  nodes : g'.nodes.toList.length = g.nodes.toList.length + c.nodesAdded
  removed : c.edgesRemoved ≤ g.edges.length
  edges : g'.edges.length = g.edges.length - c.edgesRemoved + c.edgesAdded
  unchanged : c.isNone = true ↔ g' = g

theorem Change.isNone_iff {c : Change} : c.isNone = true ↔ c = {} := decide_eq_true_iff

namespace Revision
variable {g g' : Graph} {keep : Edge → Bool} {batch : Batch} {c : Change}

/-- A change that counts a revision is exact, as long as no edges are exchanged where no nodes are
added. -/
theorem exact (h : Revision g g' keep batch)
    (hc : c = ⟨batch.nodes.length, (g.edges.filter (fun e => !keep e)).length, batch.edges.length⟩)
    (hnone : c.nodesAdded = 0 → c = {}) : c.Exact g g' := by
  have hsplit := List.length_eq_length_filter_add (l := g.edges) keep
  refine ⟨⟨keep, batch, h, hc⟩, ?_, ?_, ?_, ?_⟩
  · rw [h.nodes, List.length_append, hc]
  · rw [hc]
    exact List.length_filter_le _ _
  · rw [h.edges, List.length_append, hc]
    dsimp only
    omega
  · rw [Change.isNone_iff]
    constructor
    · intro hzero
      rw [hc, Change.mk.injEq, List.length_eq_zero_iff, List.length_eq_zero_iff,
        List.length_eq_zero_iff] at hzero
      obtain ⟨hnodes, hkept, hedges⟩ := hzero
      have hall : g.edges.filter keep = g.edges := by
        refine List.filter_eq_self.mpr fun e he => ?_
        simpa using List.filter_eq_nil_iff.mp hkept e he
      refine Revision.eq_of_empty (g := g) ⟨by rw [h.nodes, hnodes], ?_, h.extras⟩
      rw [h.edges, hall, hedges, List.filter_true]
    · rintro rfl
      have hnodes := h.nodes
      rw [List.self_eq_append_right] at hnodes
      refine hnone ?_
      rw [hc, hnodes]
      rfl

end Revision

namespace Graph
variable {g : Graph} {b : Bundle} {d : Direction} {c : Change}

theorem change_replaceRoutes {routes : List Route} {batch : Batch}
    (h : (g.replaceRoutes routes batch).result = .ok c) : c = ⟨batch.nodes.length,
      (g.edges.filter (fun e => !offRoutes routes e)).length, batch.edges.length⟩ := by
  have hsplit := List.length_eq_length_filter_add (l := g.edges) (offRoutes routes)
  unfold replaceRoutes at h
  split at h
  · cases h
  · dsimp only at h
    split at h
    · cases h
    · have hcut : (g.dropEdges (fun e => !e.isContinuation && routes.contains e.route)).edges =
          g.edges.filter (offRoutes routes) := rfl
      rw [← Except.ok.inj h, hcut, hsplit, Nat.add_sub_cancel_left]

/-- A tree has one node less than it has peers. -/
theorem length_nodes_tree {root : FanRoot} {peers : List Port} {batch : Batch}
    (h : d.tree root peers = .ok batch) : batch.nodes.length = peers.length - 1 := by
  cases peers with
  | nil =>
    rw [Direction.tree, FanTree.balanced?] at h
    cases h
  | cons p peers =>
    have hne := List.cons_ne_nil p peers
    rw [FanTree.tree_eq_spanning hne] at h
    have hids := FanTree.length_ids_spanning hne d root
    rw [Batch.ids, List.length_map] at hids
    rw [← Except.ok.inj h]
    omega

theorem length_nodes_duplicateTree {taken : List Route} {w : Withheld}
    (h : g.duplicateTree taken b = .ok w) : w.batch.nodes.length = b.peers.length - 1 := by
  obtain ⟨root, _, h⟩ := bind_eq_ok.mp h
  obtain ⟨tree, htree, h⟩ := bind_eq_ok.mp h
  rw [← Except.ok.inj h, Batch.nodes_withhold, length_nodes_tree htree]

theorem length_nodes_joinTree {feeds : Feeds} {batch : Batch}
    (h : g.joinTree feeds b = .ok batch) : batch.nodes.length = b.peers.length - 1 := by
  obtain ⟨root, _, h⟩ := bind_eq_ok.mp h
  rw [length_nodes_tree h, Feeds.length_draw, Bundle.routes, List.length_map]

/-- The bundles of both directions. -/
def allBundles (g : Graph) : List Bundle := g.bundles .outward ++ g.bundles .inward

/-- Whenever all trees can be built, they have together one node less for each bundle than there are
peers. -/
theorem length_nodes_fanBatch {batch : Batch} (h : g.fanBatch = .ok batch) :
    batch.nodes.length = (g.allBundles.map (fun b => b.peers.length - 1)).sum := by
  obtain ⟨duplicates, hduplicates, h⟩ := bind_eq_ok.mp h
  obtain ⟨joins, hjoins, h⟩ := bind_eq_ok.mp h
  have houts := map_eq_of_mapM hduplicates fun _ _ _ => length_nodes_duplicateTree
  have hins := map_eq_of_mapM hjoins fun _ _ _ => length_nodes_joinTree
  rw [← Except.ok.inj h, Batch.nodes_concat, List.length_flatMap, List.map_append, List.map_map,
    List.sum_append, hins, allBundles, List.map_append, List.sum_append, ← houts, Nat.add_comm]
  rfl

theorem exact_expandFans (h : g.expandFans.result = .ok c) : c.Exact g g.expandFans.graph := by
  have hwhole := h
  rw [expandFans] at h ⊢
  split at h
  · cases h
  · rename_i batch hbatch
    have hc := change_replaceRoutes h
    refine (revision_replaceRoutes h).exact hc fun hzero => ?_
    rw [hc] at hzero
    have hnone := hzero.symm.trans (length_nodes_fanBatch hbatch)
    have hempty : ∀ d, g.bundles d = [] := by
      intro d
      refine List.eq_nil_iff_forall_not_mem.mpr fun b hb => ?_
      have hall : b ∈ g.allBundles := by
        cases d with
        | outward => exact List.mem_append_left _ hb
        | inward => exact List.mem_append_right _ hb
      have hone := List.sum_eq_zero_iff_forall_eq_nat.mp hnone.symm _
        (List.mem_map.mpr ⟨b, hall, rfl⟩)
      have htwo := b.shared
      omega
    rw [expandFans_of_none hempty] at hwhole
    exact (Except.ok.inj hwhole).symm

theorem change_bridgeLoops (h : g.bridgeLoops.result = .ok c) :
    c = ⟨g.loops.length, g.selfLoops.length, 2 * g.loops.length⟩ := by
  unfold bridgeLoops at h
  split at h
  · cases h
  · rename_i bridges hb
    have hlength := congrArg List.length (eq_map_of_mapM hb fun _ _ _ hr => bridgeAt_eq hr)
    rw [List.length_map, ← loops] at hlength
    split at h
    · cases h
    · rw [← Except.ok.inj h, List.length_flatMap, hlength]
      simp [hlength, Nat.mul_comm]

theorem exact_bridgeLoops (h : g.bridgeLoops.result = .ok c) :
    c.Exact g g.bridgeLoops.graph := by
  have hc := change_bridgeLoops h
  have hedges : g.bridgePlan.edges.length = 2 * g.loops.length := by
    simp [bridgePlan, Bridge.edges, List.length_flatMap, Nat.mul_comm]
  refine (revision_bridgeLoops h).exact ?_ fun hzero => ?_
  · rw [hc, hedges, bridgePlan, List.length_map]
    simp only [Bool.not_not]
    rfl
  · rw [hc] at hzero
    have hloops : g.selfLoops = [] := by
      refine List.eq_nil_iff_forall_not_mem.mpr fun e he => ?_
      exact List.not_mem_nil (List.eq_nil_of_length_eq_zero hzero ▸ mem_loops.mpr ⟨e, he, rfl⟩)
    rw [bridgeLoops_of_none hloops] at h
    exact (Except.ok.inj h).symm

theorem exact_addSinks (h : g.addSinks.result = .ok c) : c.Exact g g.addSinks.graph := by
  have hc := change_addSinks h
  refine (revision_addSinks h).exact ?_ fun hzero => ?_
  · simp [hc, sinkPlan, sinksAt]
  · rw [hc] at hzero
    rw [hc, show g.unconsumedPorts.length = 0 from hzero]

end Graph

theorem Pass.exact_run {pass : Pass} {g : Graph} {c : Change}
    (h : (pass.run g).result = .ok c) : c.Exact g (pass.run g).graph := by
  cases pass with
  | expandFans => exact Graph.exact_expandFans h
  | bridgeLoops => exact Graph.exact_bridgeLoops h
  | addSinks => exact Graph.exact_addSinks h

namespace Graph
variable {g : Graph} {b : Bundle} {d : Direction} {c : Change}

/-- Whether an edge runs along one of the routes of the bundles of a direction. -/
def bundledIn (g : Graph) (d : Direction) (e : Edge) : Bool :=
  (g.bundles d).any (fun b => b.routes.contains e.route)

/-- The data edges that lie in bundles of both directions. -/
def crossings (g : Graph) : List Edge :=
  g.dataEdges.filter (fun e => g.bundledIn .outward e && g.bundledIn .inward e)

namespace WellFormed

theorem bundledIn_eq (hg : g.WellFormed) {e : Edge} (he : e ∈ g.dataEdges) (d : Direction) :
    g.bundledIn d e = g.shared d (d.near e) := by
  have hroute : e.route ∈ (g.bundles d).flatMap Bundle.routes ↔ g.shared d (d.near e) = true := by
    rw [hg.mem_routes_iff, Direction.nearEnd_route]
    exact and_iff_right (mem_dataRoutes.mpr ⟨e, he, rfl⟩)
  rw [Bool.eq_iff_iff, ← hroute, bundledIn, List.any_eq_true, List.mem_flatMap]
  simp only [List.contains_iff_mem]

/-- The edges of the bundles of a direction are the data edges that lie in one. -/
theorem sum_length_peers (hg : g.WellFormed) (d : Direction) :
    ((g.bundles d).map (fun b => b.peers.length)).sum =
      (g.dataEdges.filter (g.bundledIn d)).length := by
  have hlength := (hg.perm_routes d).length_eq
  have hroutes : (g.bundles d).map (fun b => b.routes.length) =
      (g.bundles d).map (fun b => b.peers.length) :=
    List.map_congr_left fun b _ => by rw [Bundle.routes, List.length_map]
  rw [List.length_flatMap, hroutes, dataRoutes, List.filter_map, List.length_map] at hlength
  rw [hlength, List.filter_congr fun e he => hg.bundledIn_eq he d]
  simp only [Function.comp_def, Direction.nearEnd_route]

theorem sum_allBundles (hg : g.WellFormed) : (g.allBundles.map (fun b => b.peers.length)).sum =
    (g.edges.filter g.bundled).length + g.crossings.length := by
  have hdata : g.edges.filter g.bundled =
      g.dataEdges.filter (fun e => g.bundledIn .outward e || g.bundledIn .inward e) := by
    have hsame : ∀ e ∈ g.dataEdges, g.bundled e =
        (g.bundledIn .outward e || g.bundledIn .inward e) := fun e he => by
      rw [bundled_eq (mem_dataEdges.mp he).2 .outward, hg.bundledIn_eq he, hg.bundledIn_eq he]
      rfl
    rw [← List.filter_congr hsame, dataEdges, List.filter_filter]
    apply List.filter_congr
    intro e _
    cases hc : e.isContinuation <;> simp [bundled, hc]
  rw [allBundles, List.map_append, List.sum_append, hg.sum_length_peers, hg.sum_length_peers, hdata,
    crossings, length_filter_or_add_and]

end WellFormed

theorem length_edges_tree {peers : List Port} (hne : peers ≠ []) (root : FanRoot) :
    ((FanTree.spanning peers).batch d root).edges.length = 2 * peers.length - 1 := by
  have hedges := FanTree.length_edges_batch (FanTree.spanning peers) d root
  rw [FanTree.leaves_spanning hne] at hedges
  omega

/-- One leaf of a duplicate tree is held back for each edge that lies in two bundles. -/
theorem length_feeds (hg : g.WellFormed) (hf : g.FreshPlan) :
    g.feeds.length = g.crossings.length := by
  have hlength := (perm_routes_feeds hg hf).length_eq
  rw [List.length_map, dataRoutes, List.filter_map, List.length_map] at hlength
  rw [hlength, crossings]
  congr 1
  apply List.filter_congr
  intro e he
  rw [hg.bundledIn_eq he, hg.bundledIn_eq he]
  exact Bool.and_comm _ _

/-- The trees have one edge less for each bundle than twice the number of its peers, but for the
leaves that are held back. -/
theorem length_edges_fanPlan (hg : g.WellFormed) (hf : g.FreshPlan) :
    g.fanPlan.edges.length + g.crossings.length =
      (g.allBundles.map (fun b => 2 * b.peers.length - 1)).sum := by
  have hkept := (perm_sources_kept g).length_eq
  have houts : (g.bundles .outward).map (fun b => (g.outTree b).edges.length) =
      (g.bundles .outward).map (fun b => 2 * b.peers.length - 1) :=
    List.map_congr_left fun b _ => length_edges_tree b.peers_ne_nil _
  have hins : (g.bundles .inward).map (fun b => (g.inTree b).edges.length) =
      (g.bundles .inward).map (fun b => 2 * b.peers.length - 1) :=
    List.map_congr_left fun b _ => by
      rw [inTree, length_edges_tree (draw_ne_nil b g.feeds), Feeds.length_draw, Bundle.routes,
        List.length_map]
  simp only [List.length_append, List.length_map, length_feeds hg hf, List.length_flatMap,
    houts] at hkept
  rw [edges_fanPlan, List.length_append, List.length_flatMap, List.length_flatMap, hins, allBundles,
    List.map_append, List.sum_append, ← hkept]
  omega

/-- What the expansion of fans counts, in the sizes of the bundles and the number of edges that lie
in two of them. -/
structure FanCounts (g : Graph) (c : Change) : Prop where
  nodes : c.nodesAdded = (g.allBundles.map (fun b => b.peers.length - 1)).sum
  removed : c.edgesRemoved + g.crossings.length =
    (g.allBundles.map (fun b => b.peers.length)).sum
  added : c.edgesAdded + g.crossings.length =
    (g.allBundles.map (fun b => 2 * b.peers.length - 1)).sum
  balance : c.edgesAdded = c.edgesRemoved + c.nodesAdded

/-- Every bundle of some peers has a tree with as many edges as peers and nodes. -/
theorem sum_nodes_add_sum_peers (bs : List Bundle) :
    (bs.map (fun b => b.peers.length - 1)).sum + (bs.map (fun b => b.peers.length)).sum =
      (bs.map (fun b => 2 * b.peers.length - 1)).sum := by
  induction bs with
  | nil => rfl
  | cons b bs ih =>
    have hshared := b.shared
    simp only [List.map_cons, List.sum_cons]
    omega

theorem fanCounts_expandFans (hg : g.WellFormed) (h : g.expandFans.result = .ok c) :
    g.FanCounts c := by
  have hf := freshPlan_of_expandFans hg h
  have hplan := length_edges_fanPlan hg hf
  have hpeers := hg.sum_allBundles
  have hsum := sum_nodes_add_sum_peers g.allBundles
  rw [hg.expandFans_eq] at h
  have hkept : g.edges.filter (fun e => !offRoutes
      ((g.bundles .outward ++ g.bundles .inward).flatMap Bundle.routes) e) =
        g.edges.filter g.bundled :=
    List.filter_congr fun e he => by rw [offRoutes_bundles hg he, Bool.not_not]
  have hc := change_replaceRoutes h
  rw [length_nodes_fanBatch hg.fanBatch_eq, hkept] at hc
  rw [hc]
  exact ⟨rfl, hpeers.symm, hplan, by dsimp only; omega⟩

/-- The changes that passes report are exact on every graph, and their numbers follow from what the
pass has found: for fans from the sizes of the bundles, less one edge for each crossing on both
sides of the count, so that every added node costs one more edge; for self-loops from their
routes. -/
theorem change_counts (g : Graph) :
    (∀ (pass : Pass) (c : Change), (pass.run g).result = .ok c → c.Exact g (pass.run g).graph) ∧
    (∀ c, Validator.structural.accepts g = true → g.expandFans.result = .ok c → g.FanCounts c) ∧
    ∀ c, g.bridgeLoops.result = .ok c → c.edgesAdded = 2 * c.nodesAdded := by
  refine ⟨fun _ _ => Pass.exact_run, fun _ hv => fanCounts_expandFans (accepts_iff.mp hv), ?_⟩
  intro c h
  rw [change_bridgeLoops h]

/-- Two bundles of three peers cross in two parallel edges; and of four loops two run on one
route. -/
theorem change_counts_braided :
    (braided.expandFans.result = .ok ⟨4, 4, 8⟩ ∧ braided.allBundles.map (fun b => b.peers.length) =
      [3, 3] ∧ braided.crossings.length = 2 ∧ braided.FanCounts ⟨4, 4, 8⟩ ∧
      (⟨4, 4, 8⟩ : Change).Exact braided braided.expandFans.graph) ∧
    looped.bridgeLoops.result = .ok ⟨3, 4, 6⟩ ∧
      (⟨3, 4, 6⟩ : Change).Exact looped looped.bridgeLoops.graph ∧ 6 = 2 * 3 := by
  obtain ⟨hexact, hcounts, _⟩ := change_counts braided
  obtain ⟨hexact', _, hloops⟩ := change_counts looped
  have hrun : braided.expandFans.result = .ok ⟨4, 4, 8⟩ := by decide +kernel
  have hrun' : looped.bridgeLoops.result = .ok ⟨3, 4, 6⟩ := by decide +kernel
  exact ⟨⟨hrun, by decide +kernel, by decide +kernel, hcounts _ (by decide) hrun,
    hexact .expandFans _ hrun⟩, hrun', hexact' .bridgeLoops _ hrun', hloops _ hrun'⟩

end Graph
end PortNet
