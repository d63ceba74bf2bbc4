import PortNet.Proofs.Ancestry
import PortNet.Proofs.Fan.Typing

namespace PortNet

namespace Graph

/-- Nodes that an edge joins without crossing the boundary of a compound node: nodes in one scope, a
node and itself among them, or a node and its scope. -/
def Adjacent (g : Graph) (a b : NodeId) : Prop :=
  g.parent? a = g.parent? b ∨ g.parent? a = some b ∨ g.parent? b = some a

instance (g : Graph) (a b : NodeId) : Decidable (g.Adjacent a b) :=
  inferInstanceAs (Decidable (_ ∨ _ ∨ _))

def Local (g : Graph) (e : Edge) : Prop := g.Adjacent e.source.node e.target.node

instance (g : Graph) (e : Edge) : Decidable (g.Local e) :=
  inferInstanceAs (Decidable (g.Adjacent _ _))

/-- The node belongs to a scope, as one of its members or as the node whose inside it is. -/
def Reaches (g : Graph) (scope : Option NodeId) (id : NodeId) : Prop :=
  scope = g.parent? id ∨ scope = some id

variable {g g' : Graph} {a b : Bundle} {d : Direction} {p : Port} {e : Edge} {c : Change}
  {t : FanTree} {id other : NodeId}

theorem Adjacent.symm (h : g.Adjacent id other) : g.Adjacent other id := by
  rcases h with h | h | h
  · exact .inl h.symm
  · exact .inr (.inr h)
  · exact .inr (.inl h)

theorem local_iff_ends (d : Direction) :
    g.Local e ↔ g.Adjacent (d.near e).node (d.far e).node := by
  cases d with
  | outward => exact Iff.rfl
  | inward => exact ⟨Adjacent.symm, Adjacent.symm⟩

namespace WellFormed

/-- No two nodes are inside each other, and no node is inside itself. -/
theorem parent_asymm (hg : g.WellFormed) (h : g.parent? id = some other) :
    g.parent? other ≠ some id := by
  intro hback
  exact hg.not_circle id (.tail (.single h) hback)

theorem parent_ne (hg : g.WellFormed) (id : NodeId) : g.parent? id ≠ some id :=
  fun h => hg.parent_asymm h h

end WellFormed
end Graph

namespace Revision
variable {g g' : Graph} {keep : Edge → Bool} {batch : Batch} {n m : Node} {id other : NodeId}

theorem parent?_of_mem_batch (h : Revision g g' keep batch) (hn : n ∈ batch.nodes) :
    g'.parent? n.id = n.parent? := by
  rw [Graph.parent?, h.node?_of_mem_batch hn]
  rfl

theorem adjacent_old (h : Revision g g' keep batch) (hid : g.contains id = true)
    (hother : g.contains other = true) : g'.Adjacent id other ↔ g.Adjacent id other := by
  rw [Graph.Adjacent, h.parent?_of_contains hid, h.parent?_of_contains hother]
  rfl

/-- A new node is joined to an old one within its scope, for it is the scope of no old node. -/
theorem adjacent_new_old (h : Revision g g' keep batch) (hg : g.WellFormed)
    (hn : n ∈ batch.nodes) (hid : g.contains id = true) :
    g'.Adjacent n.id id ↔ g.Reaches n.parent? id := by
  have hnot : g.parent? id ≠ some n.id := fun hp => h.fresh hn (hg.parent_contains hp)
  rw [Graph.Adjacent, h.parent?_of_mem_batch hn, h.parent?_of_contains hid, or_iff_left hnot]
  rfl

/-- Two new nodes are joined within one scope. -/
theorem adjacent_new (h : Revision g g' keep batch)
    (hparents : ∀ n ∈ batch.nodes, ∀ q, n.parent? = some q → g.contains q = true)
    (hn : n ∈ batch.nodes) (hm : m ∈ batch.nodes) :
    g'.Adjacent n.id m.id ↔ n.parent? = m.parent? := by
  have hnm : n.parent? ≠ some m.id := fun hp => h.fresh hm (hparents n hn _ hp)
  have hmn : m.parent? ≠ some n.id := fun hp => h.fresh hn (hparents m hm _ hp)
  rw [Graph.Adjacent, h.parent?_of_mem_batch hn, h.parent?_of_mem_batch hm, or_iff_left]
  exact fun hall => hall.elim hnm hmn

end Revision

namespace FanTree
variable {d : Direction} {root : FanRoot} {t : FanTree} {e : Edge} {p : Port}

/-- Some edge of a tree ends at each of its leaves. -/
theorem exists_edge_of_mem_leaves (root : FanRoot) (d : Direction) (h : p ∈ t.leaves) :
    ∃ e ∈ (t.batch d root).edges, d.far e = p :=
  List.mem_map.mp ((perm_far_batch t d root).mem_iff.mpr (List.mem_append_left _ h))

/-- An edge that ends outside of the nodes of a tree starts at one of them. -/
theorem near_mem_ids (ht : ∀ p, t ≠ .leaf p) (he : e ∈ (t.batch d root).edges)
    (hfar : (d.far e).node ∉ (t.batch d root).ids) : (d.near e).node ∈ (t.batch d root).ids :=
  (touches_of_mem_batch ht he).resolve_right hfar

end FanTree

namespace Graph

variable {g g' : Graph} {a b : Bundle} {d : Direction} {p : Port} {e : Edge} {c : Change}
  {t : FanTree} {id other : NodeId}

/-- The two places where a tree can be put. If the last peer is next to the anchor, the tree is put
inside the anchor exactly if the last peer stands there. -/
theorem scope_rootOf (hg : g.WellFormed) (hb : b ∈ g.bundles d)
    (hlast : g.Adjacent b.anchor.node b.lastPeer.node) : (g.rootOf b).scope =
      if g.parent? b.lastPeer.node = some b.anchor.node then some b.anchor.node
      else g.parent? b.anchor.node := by
  rw [rootOf, fanScope_eq (mem_bundles.mp hb).1 (hg.contains_lastPeer hb)]
  change (if _ then _ else _) = _
  by_cases hinside : g.parent? b.lastPeer.node = some b.anchor.node
  · rw [if_pos hinside, if_neg]
    rw [hinside]
    exact fun hall => hall.elim (hg.parent_ne _) (hg.parent_asymm hinside)
  · rw [if_neg hinside, if_pos]
    rcases hlast with hsame | hscope | hin
    · exact .inl hsame
    · exact .inr hscope
    · exact absurd hin hinside

/-- Wherever a tree is put, its root can be joined to the anchor. -/
theorem reaches_anchor (hg : g.WellFormed) (hb : b ∈ g.bundles d)
    (hlast : g.Adjacent b.anchor.node b.lastPeer.node) :
    g.Reaches (g.rootOf b).scope b.anchor.node := by
  rw [scope_rootOf hg hb hlast]
  split
  · exact .inr rfl
  · exact .inl rfl

theorem reaches_iff (hg : g.WellFormed) (hb : b ∈ g.bundles d)
    (hlast : g.Adjacent b.anchor.node b.lastPeer.node) (hpeer : g.Adjacent b.anchor.node p.node)
    (hne : p.node ≠ b.anchor.node) : g.Reaches (g.rootOf b).scope p.node ↔
      (g.parent? p.node = some b.anchor.node ↔ g.parent? b.lastPeer.node = some b.anchor.node) := by
  rw [scope_rootOf hg hb hlast, Reaches]
  by_cases hinside : g.parent? b.lastPeer.node = some b.anchor.node
  · rw [if_pos hinside, iff_true_right hinside, eq_comm (a := some b.anchor.node), or_iff_left]
    exact fun hp => hne (Option.some.inj hp).symm
  · rw [if_neg hinside, iff_false_right hinside]
    constructor
    · intro hreach hin
      rcases hreach with hsame | hscope
      · exact hg.parent_ne _ (hsame.trans hin)
      · exact hg.parent_asymm hin hscope
    · intro hout
      rcases hpeer with hsame | hscope | hin
      · exact .inl hsame
      · exact .inr hscope
      · exact absurd hin hout

/-- A peer is next to its anchor, if all data edges are local. -/
theorem adjacent_peer (hall : ∀ e ∈ g.dataEdges, g.Local e) (hb : b ∈ g.bundles d)
    (hp : p ∈ b.peers) : g.Adjacent b.anchor.node p.node := by
  obtain ⟨e, he, hnear, rfl⟩ := (mem_peers_iff hb).mp hp
  rw [← hnear]
  exact (local_iff_ends d).mp (hall e he)

/-- A node that is planned for a scope. -/
def Stands (g : Graph) (scope : Option NodeId) (id : NodeId) : Prop :=
  ∃ n ∈ g.fanPlan.nodes, n.id = id ∧ n.parent? = scope

theorem Stands.adjacent_old (hg : g.WellFormed) (h : g.expandFans.result = .ok c)
    {scope : Option NodeId} (hid : g.Stands scope id) (hold : g.contains other = true) :
    g.expandFans.graph.Adjacent id other ↔ g.Reaches scope other := by
  obtain ⟨n, hn, rfl, rfl⟩ := hid
  exact (revision_expandFans hg h).adjacent_new_old hg hn hold

theorem Stands.adjacent (hg : g.WellFormed) (h : g.expandFans.result = .ok c)
    {scope scope' : Option NodeId} (hid : g.Stands scope id) (hother : g.Stands scope' other) :
    g.expandFans.graph.Adjacent id other ↔ scope = scope' := by
  obtain ⟨n, hn, rfl, rfl⟩ := hid
  obtain ⟨m, hm, rfl, rfl⟩ := hother
  exact (revision_expandFans hg h).adjacent_new (fun n hn q => contains_parent_fanPlan hg hn) hn hm

theorem stands_of_mem_ids (ht : ∀ n ∈ (t.batch d (g.rootOf b)).nodes, n ∈ g.fanPlan.nodes)
    (hid : id ∈ (t.batch d (g.rootOf b)).ids) : g.Stands (g.rootOf b).scope id := by
  obtain ⟨n, hn, rfl⟩ := List.mem_map.mp hid
  refine ⟨n, ht n hn, rfl, ?_⟩
  rw [FanTree.eq_twoWay_of_mem_batch hn, Synthesis.parent?_twoWay]

/-- The edges between nodes of one tree, and the one at its root, are local. -/
theorem local_of_trunk (hg : g.WellFormed) (h : g.expandFans.result = .ok c)
    (hb : b ∈ g.bundles d) (hlast : g.Adjacent b.anchor.node b.lastPeer.node)
    (ht : ∀ n ∈ (t.batch d (g.rootOf b)).nodes, n ∈ g.fanPlan.nodes)
    (he : e ∈ (t.batch d (g.rootOf b)).edges)
    (hfar : (d.far e).node ∈ (t.batch d (g.rootOf b)).ids) : g.expandFans.graph.Local e := by
  have hfar := stands_of_mem_ids ht hfar
  rw [local_iff_ends d]
  rcases FanTree.near_of_mem_batch he with hroot | hnear
  · rw [hroot]
    exact ((hfar.adjacent_old hg h (mem_bundles.mp hb).1).mpr (reaches_anchor hg hb hlast)).symm
  · exact ((stands_of_mem_ids ht hnear).adjacent hg h hfar).mpr rfl

/-- Edges to the leaves of a duplicate tree start at its nodes. -/
theorem stands_source (hg : g.WellFormed) (hf : g.FreshPlan) (hb : b ∈ g.bundles .outward)
    (he : e ∈ (g.outTree b).edges) (hp : e.target ∈ b.peers) :
    g.Stands (g.rootOf b).scope e.source.node :=
  stands_of_mem_ids (fun _ => mem_nodes_of_outTree hb)
    (FanTree.near_mem_ids (FanTree.spanning_ne_leaf b.shared) he (peer_not_mem_outTree hg hf hb hp))

/-- Edges from the leaves of a join tree end at its nodes. -/
theorem stands_target (hg : g.WellFormed) (h : g.expandFans.result = .ok c)
    (hb : b ∈ g.bundles .inward) (he : e ∈ (g.inTree b).edges)
    (hp : e.source ∈ g.feeds.draw b.routes) : g.Stands (g.rootOf b).scope e.target.node := by
  have hids := (revision_expandFans hg h).nodup_batch
  have hf := freshPlan_of_expandFans hg h
  exact stands_of_mem_ids (fun _ => mem_nodes_of_inTree hb)
    (FanTree.near_mem_ids (spanning_draw_ne_leaf b) he (draw_not_mem_inTree hg hf hids hb hp))

end Graph
end PortNet
