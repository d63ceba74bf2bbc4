import PortNet.Proofs.Fan.Frame

namespace PortNet

namespace Synthesis

/-- Every port of a two-way node has the type that the node was made for. -/
theorem portType?_twoWay {d : Direction} {id : NodeId} {type : PortType} {scope : Option NodeId}
    {side : Side} {p : Port} (h : p ∈ (twoWay d id type scope).portsOn side) :
    (twoWay d id type scope).value.portType? p.name side = some type := by
  by_cases hs : side = d.side
  · subst hs
    rw [portsOn_twoWay_side] at h
    rcases List.mem_pair.mp h with rfl | rfl
    · cases d <;> rfl
    · cases d <;> rfl
  · have hopposite : side = d.side.opposite := by
      cases d <;> cases side <;> simp_all [Direction.side, Side.opposite]
    subst hopposite
    rw [portsOn_twoWay_opposite, List.mem_singleton] at h
    subst h
    cases d <;> rfl

end Synthesis

namespace Revision
variable {g g' : Graph} {keep : Edge → Bool} {batch : Batch} {p : Port} {side : Side}

theorem portType?_of_contains (h : Revision g g' keep batch) (hc : g.contains p.node = true)
    (side : Side) : g'.portType? p side = g.portType? p side := by
  rw [Graph.portType?, h.node?_of_contains hc, Graph.portType?]

theorem portType?_of_mem_portsOn (h : Revision g g' keep batch) {n : Node} (hn : n ∈ batch.nodes)
    (hp : p ∈ n.portsOn side) : g'.portType? p side = n.value.portType? p.name side := by
  rw [Graph.portType?, Node.node_of_mem_portsOn hp, h.node?_of_mem_batch hn]
  rfl

end Revision

namespace Graph

/-- Both ends of an edge have types, its source as an output and its target as an input, and the
two are related. -/
def Compatible (g : Graph) (R : PortType → PortType → Prop) (e : Edge) : Prop :=
  ∃ out into, g.portType? e.source .output = some out ∧
    g.portType? e.target .input = some into ∧ R out into

variable {g : Graph} {b : Bundle} {d : Direction} {p : Port} {r : Route} {e : Edge} {c : Change}
  {t : FanTree}

/-- The ports of the tree at a bundle have the type of the bundle. -/
theorem portType?_of_tree (hg : g.WellFormed) (h : g.expandFans.result = .ok c)
    (hb : b ∈ g.bundles d) (ht : ∀ n ∈ (t.batch d (g.rootOf b)).nodes, n ∈ g.fanPlan.nodes)
    {n : Node} (hn : n ∈ (t.batch d (g.rootOf b)).nodes) {side : Side} (hp : p ∈ n.portsOn side) :
    g.expandFans.graph.portType? p side = g.portType? b.anchor d.side := by
  obtain ⟨type, htype⟩ := (hg.declares_anchor hb).exists_portType d.side
  have hroot : (g.rootOf b).type = type := by
    rw [rootOf, (mem_bundles.mp hb).2.2.1, htype]
    rfl
  rw [(revision_expandFans hg h).portType?_of_mem_portsOn (ht n hn) hp, htype, ← hroot]
  rw [FanTree.eq_twoWay_of_mem_batch hn] at hp ⊢
  exact Synthesis.portType?_twoWay hp

/-- So has the near end of each of its edges, seen from the side of the fan. -/
theorem portType?_near (hg : g.WellFormed) (h : g.expandFans.result = .ok c)
    (hb : b ∈ g.bundles d) (ht : ∀ n ∈ (t.batch d (g.rootOf b)).nodes, n ∈ g.fanPlan.nodes)
    (he : e ∈ (t.batch d (g.rootOf b)).edges) :
    g.expandFans.graph.portType? (d.near e) d.side = g.portType? b.anchor d.side := by
  rcases FanTree.near_of_mem_edges he with hroot | ⟨n, hn, hp⟩
  · rw [hroot]
    exact (revision_expandFans hg h).portType?_of_contains (mem_bundles.mp hb).1 d.side
  · exact portType?_of_tree hg h hb ht hn hp

/-- And so has the far end, unless it is a leaf. -/
theorem portType?_far (hg : g.WellFormed) (h : g.expandFans.result = .ok c)
    (hb : b ∈ g.bundles d) (ht : ∀ n ∈ (t.batch d (g.rootOf b)).nodes, n ∈ g.fanPlan.nodes)
    (he : e ∈ (t.batch d (g.rootOf b)).edges) : d.far e ∈ t.leaves ∨
      g.expandFans.graph.portType? (d.far e) d.side.opposite = g.portType? b.anchor d.side := by
  rcases FanTree.far_of_mem_edges he with hleaf | ⟨n, hn, hp⟩
  · exact .inl hleaf
  · exact .inr (portType?_of_tree hg h hb ht hn hp)

theorem exists_edge_of_mem_routes (hb : b ∈ g.bundles d) (hr : r ∈ b.routes) :
    ∃ e ∈ g.dataEdges, e.route = r := by
  rw [routes_of_mem_bundles hb] at hr
  exact mem_dataRoutes.mp (List.mem_filter.mp hr).1

theorem exists_mem_zip_draw (feeds : Feeds) {rs : List Route} (hp : p ∈ feeds.draw rs) :
    ∃ r, (r, p) ∈ rs.zip (feeds.draw rs) := by
  rw [← List.map_snd_zip (Nat.le_of_eq (Feeds.length_draw feeds rs)), List.mem_map] at hp
  obtain ⟨⟨r, q⟩, hm, rfl⟩ := hp
  exact ⟨r, hm⟩

/-- What a join draws for a route has the type of the source of that route. -/
theorem portType?_drawn (hg : g.WellFormed) (h : g.expandFans.result = .ok c)
    (hb : b ∈ g.bundles .inward) (hp : (r, p) ∈ b.routes.zip (g.feeds.draw b.routes)) :
    g.expandFans.graph.portType? p .output = g.portType? r.source .output := by
  have hf := freshPlan_of_expandFans hg h
  rcases (mem_zip_draw hg hf hb).mp hp with ⟨hfeed, _⟩ | ⟨hr, _, rfl⟩
  · obtain ⟨a, ha, e, he, _, heq⟩ := mem_feeds.mp hfeed
    cases heq
    exact portType?_near hg h ha (fun n hn => mem_nodes_of_outTree ha hn) he
  · refine (revision_expandFans hg h).portType?_of_contains ?_ .output
    obtain ⟨e, he, rfl⟩ := exists_edge_of_mem_routes hb hr
    exact hg.contains_near (mem_dataEdges.mp he).1 .outward

/-- In the graph `g'` an edge joins two ports of one type, or it carries the types that an old data
edge has had. -/
def Typed (g g' : Graph) (e : Edge) : Prop :=
  (∃ type, g'.portType? e.source .output = some type ∧ g'.portType? e.target .input = some type) ∨
    ∃ e₀ ∈ g.dataEdges, g'.portType? e.source .output = g.portType? e₀.source .output ∧
      g'.portType? e.target .input = g.portType? e₀.target .input

theorem typed_of_outTree (hg : g.WellFormed) (h : g.expandFans.result = .ok c)
    (hb : b ∈ g.bundles .outward) (he : e ∈ (g.outTree b).edges) :
    g.Typed g.expandFans.graph e := by
  have hnodes : ∀ n ∈ (g.outTree b).nodes, n ∈ g.fanPlan.nodes :=
    fun n hn => mem_nodes_of_outTree hb hn
  have hsource := portType?_near hg h hb hnodes he
  rcases portType?_far hg h hb hnodes he with hleaf | htarget
  · rw [FanTree.leaves_spanning b.peers_ne_nil] at hleaf
    have hroute : ⟨b.anchor, e.target⟩ ∈ b.routes := by
      rw [routes_outward hb]
      exact List.mem_map.mpr ⟨e.target, hleaf, rfl⟩
    obtain ⟨e₀, he₀, hr⟩ := exists_edge_of_mem_routes hb hroute
    obtain ⟨hs, ht⟩ := Route.mk.inj hr
    refine .inr ⟨e₀, he₀, hsource.trans (by rw [hs]; rfl), ?_⟩
    rw [ht]
    exact (revision_expandFans hg h).portType?_of_contains (hg.contains_peer hb hleaf) .input
  · obtain ⟨type, htype⟩ := (hg.declares_anchor hb).exists_portType .output
    exact .inl ⟨type, hsource.trans htype, htarget.trans htype⟩

theorem typed_of_inTree (hg : g.WellFormed) (h : g.expandFans.result = .ok c)
    (hb : b ∈ g.bundles .inward) (he : e ∈ (g.inTree b).edges) :
    g.Typed g.expandFans.graph e := by
  have hnodes : ∀ n ∈ (g.inTree b).nodes, n ∈ g.fanPlan.nodes :=
    fun n hn => mem_nodes_of_inTree hb hn
  have htarget := portType?_near hg h hb hnodes he
  rcases portType?_far hg h hb hnodes he with hleaf | hsource
  · rw [FanTree.leaves_spanning (draw_ne_nil b g.feeds)] at hleaf
    obtain ⟨r, hzip⟩ := exists_mem_zip_draw g.feeds hleaf
    have hr := (List.of_mem_zip hzip).1
    have hanchor : r.target = b.anchor := by
      rw [routes_of_mem_bundles hb] at hr
      exact of_decide_eq_true (List.mem_filter.mp hr).2
    obtain ⟨e₀, he₀, rfl⟩ := exists_edge_of_mem_routes hb hr
    exact .inr ⟨e₀, he₀, portType?_drawn hg h hb hzip, htarget.trans (by rw [← hanchor]; rfl)⟩
  · obtain ⟨type, htype⟩ := (hg.declares_anchor hb).exists_portType .input
    exact .inl ⟨type, hsource.trans htype, htarget.trans htype⟩

/-- Every data edge of the expanded graph is typed like an old one, or joins ports of one type. -/
theorem typed_expandFans (hg : g.WellFormed) (h : g.expandFans.result = .ok c)
    (he : e ∈ g.expandFans.graph.dataEdges) : g.Typed g.expandFans.graph e := by
  have hrevision := revision_expandFans hg h
  obtain ⟨hedge, hdata⟩ := mem_dataEdges.mp he
  rcases hrevision.mem_edges_iff.mp hedge with ⟨hold, _⟩ | hnew
  · exact .inr ⟨e, mem_dataEdges.mpr ⟨hold, hdata⟩,
      hrevision.portType?_of_contains (hg.contains_near hold .outward) .output,
      hrevision.portType?_of_contains (hg.contains_near hold .inward) .input⟩
  · rcases mem_edges_fanPlan.mp hnew with ⟨b, hb, he⟩ | ⟨b, hb, he, _⟩
    · exact typed_of_inTree hg h hb he
    · exact typed_of_outTree hg h hb he

/-- Expanding fans preserves the compatibility of port types: if the two types of every data edge
are related by a reflexive relation, they are so afterwards. -/
theorem compatible_expandFans (hv : Validator.structural.accepts g = true)
    (h : g.expandFans.result = .ok c) {R : PortType → PortType → Prop} (hrefl : ∀ t, R t t)
    (hall : ∀ e ∈ g.dataEdges, g.Compatible R e) :
    ∀ e ∈ g.expandFans.graph.dataEdges, g.expandFans.graph.Compatible R e := by
  intro e he
  rcases typed_expandFans (accepts_iff.mp hv) h he with ⟨type, hs, ht⟩ | ⟨e₀, he₀, hs, ht⟩
  · exact ⟨type, type, hs, ht, hrefl type⟩
  · obtain ⟨out, into, hout, hinto, hrelated⟩ := hall e₀ he₀
    exact ⟨out, into, hs.trans hout, ht.trans hinto, hrelated⟩

/-- Crossing fans between ports of three types. -/
def widening : Graph where
  nodes := .ofList [
    .build "a" { outputs := some (.ofList [("o", .named "int")]) } .unstated,
    .build "b" { outputs := some (.ofList [("o", .named "float")]) } .unstated,
    .build "c" { inputs := some (.ofList [("i", .named "float")]) } .unstated,
    .build "d" { inputs := some (.ofList [("i", .named "any")]) } .unstated]
  edges := [.between ⟨"a", "o"⟩ ⟨"c", "i"⟩, .between ⟨"a", "o"⟩ ⟨"d", "i"⟩,
    .between ⟨"b", "o"⟩ ⟨"c", "i"⟩]

/-- An `int` may be taken for something else, and nothing else for an `int`. -/
theorem compatible_expandFans_widening : Validator.structural.accepts widening = true ∧
    widening.expandFans.result = .ok ⟨2, 3, 5⟩ ∧ ∀ e ∈ widening.expandFans.graph.dataEdges,
      widening.expandFans.graph.Compatible (fun t u => t = u ∨ u ≠ .named "int") e := by
  have hv : Validator.structural.accepts widening = true := by decide
  have hrun : widening.expandFans.result = .ok ⟨2, 3, 5⟩ := by decide +kernel
  refine ⟨hv, hrun, compatible_expandFans hv hrun (fun t => .inl rfl) ?_⟩
  intro e he
  have hedges : e ∈ widening.edges := (mem_dataEdges.mp he).1
  simp only [widening, List.mem_cons, List.not_mem_nil, or_false] at hedges
  rcases hedges with rfl | rfl | rfl
  · exact ⟨.named "int", .named "float", rfl, rfl, .inr (by decide)⟩
  · exact ⟨.named "int", .named "any", rfl, rfl, .inr (by decide)⟩
  · exact ⟨.named "float", .named "float", rfl, rfl, .inl rfl⟩

end Graph
end PortNet
