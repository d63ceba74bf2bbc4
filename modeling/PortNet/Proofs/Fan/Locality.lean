import PortNet.Proofs.Fan.Scope

namespace PortNet

namespace Graph

variable {g : Graph} {a b : Bundle} {d : Direction} {p : Port} {e : Edge} {c : Change}
  {id other : NodeId} {scope scope' : Option NodeId}

/-- Where trees have to be put so that each of their edges is local: the scope of a tree reaches the
peers at which no other tree begins, and two trees that are joined are in one scope. -/
structure Placeable (g : Graph) : Prop where
  peers : ∀ d, ∀ b ∈ g.bundles d, ∀ p ∈ b.peers, g.shared d.opposite p = false →
    g.Reaches (g.rootOf b).scope p.node
  crossings : ∀ a ∈ g.bundles .outward, ∀ b ∈ g.bundles .inward, b.anchor ∈ a.peers →
    (g.rootOf a).scope = (g.rootOf b).scope

/-- Only the leaves of a duplicate tree are held back for a join. -/
theorem peer_of_fannedIn (hg : g.WellFormed) (hf : g.FreshPlan) (hb : b ∈ g.bundles .outward)
    (he : e ∈ (g.outTree b).edges) (hin : g.fannedIn.contains ⟨p, e.target⟩ = true) :
    e.target ∈ b.peers := by
  rcases FanTree.far_of_mem_edges he with hpeer | ⟨n, hn, hfar⟩
  · rwa [FanTree.leaves_spanning b.peers_ne_nil] at hpeer
  · have hout := not_fannedIn (p := p) hg hf hb (List.mem_flatMap.mpr ⟨n, hn, hfar⟩)
    exact absurd (hout.symm.trans hin) Bool.false_ne_true

theorem local_of_outTree (hg : g.WellFormed) (h : g.expandFans.result = .ok c)
    (hall : ∀ e ∈ g.dataEdges, g.Local e) (hplace : g.Placeable) (hb : b ∈ g.bundles .outward)
    (he : e ∈ (g.outTree b).edges) (hkept : g.fannedIn.contains ⟨b.anchor, e.target⟩ = false) :
    g.expandFans.graph.Local e := by
  have hf := freshPlan_of_expandFans hg h
  by_cases hpeer : e.target ∈ b.peers
  · rw [contains_fannedIn_peer hg hb hpeer] at hkept
    rw [Local, (stands_source hg hf hb he hpeer).adjacent_old hg h (hg.contains_peer hb hpeer)]
    exact hplace.peers .outward b hb e.target hpeer hkept
  · refine local_of_trunk hg h hb (adjacent_peer hall hb (List.getLast_mem b.peers_ne_nil))
      (fun n => mem_nodes_of_outTree hb) he ?_
    rcases FanTree.far_of_mem_edges he with hleaf | ⟨n, hn, hfar⟩
    · rw [FanTree.leaves_spanning b.peers_ne_nil] at hleaf
      exact absurd hleaf hpeer
    · exact List.mem_map.mpr ⟨n, hn, (Node.node_of_mem_portsOn hfar).symm⟩

theorem local_of_inTree (hg : g.WellFormed) (h : g.expandFans.result = .ok c)
    (hall : ∀ e ∈ g.dataEdges, g.Local e) (hplace : g.Placeable) (hb : b ∈ g.bundles .inward)
    (he : e ∈ (g.inTree b).edges) : g.expandFans.graph.Local e := by
  have hf := freshPlan_of_expandFans hg h
  rcases FanTree.far_of_mem_edges he with hleaf | ⟨n, hn, hfar⟩
  · rw [FanTree.leaves_spanning (draw_ne_nil b g.feeds)] at hleaf
    have htarget := stands_target hg h hb he hleaf
    obtain ⟨r, hzip⟩ := exists_mem_zip_draw g.feeds hleaf
    rw [local_iff_ends .inward]
    rcases (mem_zip_draw hg hf hb).mp hzip with ⟨hfeed, hanchor⟩ | ⟨hr, hs, hsource⟩
    · obtain ⟨a, ha, e₀, he₀, hin, heq⟩ := mem_feeds.mp hfeed
      obtain ⟨rfl, hport⟩ := Prod.mk.inj heq
      have hpeer := peer_of_fannedIn hg hf ha he₀ hin
      rw [← hport]
      refine (htarget.adjacent hg h (stands_source hg hf ha he₀ hpeer)).mpr ?_
      exact (hplace.crossings a ha b hb (hanchor ▸ hpeer)).symm
    · have hpeer : r.source ∈ b.peers := by
        obtain ⟨e₀, he₀, rfl⟩ := exists_edge_of_mem_routes hb hr
        rw [routes_of_mem_bundles hb] at hr
        exact (mem_peers_iff hb).mpr ⟨e₀, he₀, of_decide_eq_true (List.mem_filter.mp hr).2, rfl⟩
      rw [← hsource]
      refine (htarget.adjacent_old hg h (hg.contains_peer hb hpeer)).mpr ?_
      exact hplace.peers .inward b hb r.source hpeer hs
  · exact local_of_trunk hg h hb (adjacent_peer hall hb (List.getLast_mem b.peers_ne_nil))
      (fun n => mem_nodes_of_inTree hb) he
      (List.mem_map.mpr ⟨n, hn, (Node.node_of_mem_portsOn hfar).symm⟩)

theorem exists_edge_of_peer (g : Graph) (hp : p ∈ b.peers) :
    ∃ e ∈ (g.outTree b).edges, e.target = p := by
  rw [← FanTree.leaves_spanning b.peers_ne_nil] at hp
  exact FanTree.exists_edge_of_mem_leaves (g.rootOf b) .outward hp

theorem exists_edge_of_drawn (hp : p ∈ g.feeds.draw b.routes) :
    ∃ e ∈ (g.inTree b).edges, e.source = p := by
  rw [← FanTree.leaves_spanning (draw_ne_nil b g.feeds)] at hp
  exact FanTree.exists_edge_of_mem_leaves (g.rootOf b) .inward hp

theorem reaches_of_outTree (hg : g.WellFormed) (h : g.expandFans.result = .ok c)
    (hlocal : ∀ e ∈ g.expandFans.graph.dataEdges, g.expandFans.graph.Local e)
    (hb : b ∈ g.bundles .outward) (hp : p ∈ b.peers) (hs : g.shared .inward p = false) :
    g.Reaches (g.rootOf b).scope p.node := by
  obtain ⟨e, he, rfl⟩ := exists_edge_of_peer g hp
  have hkept := (contains_fannedIn_peer hg hb hp).trans hs
  have hedge := hlocal e (mem_dataEdges_of_mem_fanPlan hg h
    (mem_edges_fanPlan.mpr (.inr ⟨_, hb, he, hkept⟩)))
  have hsource := stands_source hg (freshPlan_of_expandFans hg h) hb he hp
  exact (hsource.adjacent_old hg h (hg.contains_peer hb hp)).mp hedge

theorem reaches_of_inTree (hg : g.WellFormed) (h : g.expandFans.result = .ok c)
    (hlocal : ∀ e ∈ g.expandFans.graph.dataEdges, g.expandFans.graph.Local e)
    (hb : b ∈ g.bundles .inward) (hp : p ∈ b.peers) (hs : g.shared .outward p = false) :
    g.Reaches (g.rootOf b).scope p.node := by
  obtain ⟨e₀, he₀, hanchor, rfl⟩ := (mem_peers_iff hb).mp hp
  have hroute : e₀.route ∈ b.routes := by
    rw [routes_of_mem_bundles hb, ← hanchor]
    exact route_mem_routesAt he₀
  have hzip := (mem_zip_draw hg (freshPlan_of_expandFans hg h) hb).mpr
    (.inr ⟨hroute, hs, rfl⟩)
  have hdrawn := (List.of_mem_zip hzip).2
  obtain ⟨e, he, hsource⟩ := exists_edge_of_drawn hdrawn
  have hedge := hlocal e (mem_dataEdges_of_mem_fanPlan hg h
    (mem_edges_fanPlan.mpr (.inl ⟨_, hb, he⟩)))
  have htarget := stands_target hg h hb he (hsource ▸ hdrawn)
  rw [local_iff_ends .inward] at hedge
  change g.expandFans.graph.Adjacent e.target.node e.source.node at hedge
  rw [hsource] at hedge
  exact (htarget.adjacent_old hg h (hg.contains_peer hb hp)).mp hedge

/-- The leaf of a duplicate tree that feeds a join is joined to the leaf of a join tree. -/
theorem scope_eq_of_crossing (hg : g.WellFormed) (h : g.expandFans.result = .ok c)
    (hlocal : ∀ e ∈ g.expandFans.graph.dataEdges, g.expandFans.graph.Local e)
    (ha : a ∈ g.bundles .outward) (hb : b ∈ g.bundles .inward) (hp : b.anchor ∈ a.peers) :
    (g.rootOf a).scope = (g.rootOf b).scope := by
  have hf := freshPlan_of_expandFans hg h
  obtain ⟨e, he, htarget⟩ := exists_edge_of_peer g hp
  have hheld : g.fannedIn.contains ⟨a.anchor, e.target⟩ = true := by
    rw [htarget, contains_fannedIn_peer hg ha hp]
    exact hg.mem_anchors_iff.mp (List.mem_map.mpr ⟨b, hb, rfl⟩)
  have hzip := (mem_zip_draw hg hf hb).mpr
    (.inl ⟨mem_feeds.mpr ⟨a, ha, e, he, hheld, rfl⟩, htarget⟩)
  have hdrawn := (List.of_mem_zip hzip).2
  obtain ⟨e', he', hsource⟩ := exists_edge_of_drawn hdrawn
  have hedge := hlocal e' (mem_dataEdges_of_mem_fanPlan hg h
    (mem_edges_fanPlan.mpr (.inl ⟨_, hb, he'⟩)))
  have hup := stands_source hg hf ha he (htarget ▸ hp)
  have hdown := stands_target hg h hb he' (hsource ▸ hdrawn)
  rw [Local, hsource] at hedge
  exact (hup.adjacent hg h hdown).mp hedge

/-- The data edges of an expanded graph are local exactly if the trees have been put where all of
their neighbours can be reached. -/
theorem local_expandFans_iff_placeable (hg : g.WellFormed) (h : g.expandFans.result = .ok c)
    (hall : ∀ e ∈ g.dataEdges, g.Local e) :
    (∀ e ∈ g.expandFans.graph.dataEdges, g.expandFans.graph.Local e) ↔ g.Placeable := by
  have hrevision := revision_expandFans hg h
  constructor
  · intro hlocal
    refine ⟨fun d b hb p hp hs => ?_, fun a ha b hb => scope_eq_of_crossing hg h hlocal ha hb⟩
    cases d with
    | outward => exact reaches_of_outTree hg h hlocal hb hp hs
    | inward => exact reaches_of_inTree hg h hlocal hb hp hs
  · intro hplace e he
    obtain ⟨hedge, hdata⟩ := mem_dataEdges.mp he
    rcases hrevision.mem_edges_iff.mp hedge with ⟨hold, _⟩ | hnew
    · obtain ⟨hs, ht⟩ := hg.ends e hold
      exact (hrevision.adjacent_old hs.contains ht.contains).mpr
        (hall e (mem_dataEdges.mpr ⟨hold, hdata⟩))
    · rcases mem_edges_fanPlan.mp hnew with ⟨b, hb, he⟩ | ⟨b, hb, he, hkept⟩
      · exact local_of_inTree hg h hall hplace hb he
      · exact local_of_outTree hg h hall hplace hb he hkept

/-- Two nodes have only one scope in common. -/
theorem Reaches.unique (hg : g.WellFormed) (hne : id ≠ other) (hid : g.Reaches scope id)
    (hother : g.Reaches scope other) (hid' : g.Reaches scope' id)
    (hother' : g.Reaches scope' other) : scope = scope' := by
  have hin : ∀ {s}, g.Reaches s other → s = some id → g.parent? other = some id := by
    rintro s (rfl | rfl) hs
    · exact hs
    · exact absurd (Option.some.inj hs).symm hne
  -- A scope that is one of the nodes contains the other one, and two such nodes cannot be.
  have hpair : ∀ {s s'}, g.Reaches s other → g.Reaches s' other → s = g.parent? id →
      s' = some id → s = s' := by
    intro s s' hs hs' hparent hself
    have hback := hin hs' hself
    rcases hs with hs | hs
    · rw [hs, hback, hself]
    · exact absurd (hparent.symm.trans hs) (hg.parent_asymm hback)
  rcases hid with hparent | hself
  · rcases hid' with hparent' | hself'
    · rw [hparent, hparent']
    · exact hpair hother hother' hparent hself'
  · rcases hid' with hparent' | hself'
    · exact (hpair hother' hother hparent' hself).symm
    · rw [hself, hself']

/-- A peer of a bundle at which another bundle begins has the anchor of the first as its peer. -/
theorem mem_peers_comm (ha : a ∈ g.bundles d) (hb : b ∈ g.bundles d.opposite) :
    b.anchor ∈ a.peers ↔ a.anchor ∈ b.peers := by
  rw [mem_peers_iff ha, mem_peers_iff hb]
  cases d <;> simp only [Direction.near, Direction.far, Direction.opposite, and_comm]

theorem Placeable.scope_eq (hplace : g.Placeable) (ha : a ∈ g.bundles d)
    (hb : b ∈ g.bundles d.opposite) (hp : b.anchor ∈ a.peers) :
    (g.rootOf a).scope = (g.rootOf b).scope := by
  cases d with
  | outward => exact hplace.crossings a ha b hb hp
  | inward => exact (hplace.crossings b hb a ha ((mem_peers_comm ha hb).mp hp)).symm

/-- Whether a port stands inside the node at which a bundle is shared. -/
def Inside (g : Graph) (b : Bundle) (p : Port) : Prop := g.parent? p.node = some b.anchor.node

instance (g : Graph) (b : Bundle) (p : Port) : Decidable (g.Inside b p) :=
  inferInstanceAs (Decidable (_ = _))

/-- No fan has peers inside its node and others outside: all peers stand on the side of the last
one, which decides where the tree is put. Peers at the node itself stand on both sides, but where a
self-loop belongs to two fans, both trees are put on one side. -/
structure Unmixed (g : Graph) : Prop where
  peers : ∀ d, ∀ b ∈ g.bundles d, ∀ p ∈ b.peers, p.node ≠ b.anchor.node →
    (g.Inside b p ↔ g.Inside b b.lastPeer)
  loops : ∀ a ∈ g.bundles .outward, ∀ b ∈ g.bundles .inward, b.anchor ∈ a.peers →
    a.anchor.node = b.anchor.node → (g.Inside a a.lastPeer ↔ g.Inside b b.lastPeer)

/-- Two trees at one node are put in the same scope if their last peers are on the same side. -/
theorem scope_eq_iff_of_node_eq (hg : g.WellFormed) {d' : Direction} (ha : a ∈ g.bundles d)
    (hb : b ∈ g.bundles d') (hlast : g.Adjacent a.anchor.node a.lastPeer.node)
    (hlast' : g.Adjacent b.anchor.node b.lastPeer.node) (hnode : a.anchor.node = b.anchor.node) :
    (g.rootOf a).scope = (g.rootOf b).scope ↔ (g.Inside a a.lastPeer ↔ g.Inside b b.lastPeer) := by
  have hne := hg.parent_ne b.anchor.node
  rw [scope_rootOf hg ha hlast, scope_rootOf hg hb hlast', Inside, Inside, hnode]
  split <;> split <;> simp_all [eq_comm]

/-- Two trees at neighbouring nodes are put in the same scope if each can reach the other node. -/
theorem scope_eq_of_reaches (hg : g.WellFormed) {d' : Direction} (ha : a ∈ g.bundles d)
    (hb : b ∈ g.bundles d') (hlast : g.Adjacent a.anchor.node a.lastPeer.node)
    (hlast' : g.Adjacent b.anchor.node b.lastPeer.node) (hne : a.anchor.node ≠ b.anchor.node)
    (hreach : g.Reaches (g.rootOf a).scope b.anchor.node)
    (hreach' : g.Reaches (g.rootOf b).scope a.anchor.node) :
    (g.rootOf a).scope = (g.rootOf b).scope :=
  Reaches.unique hg hne (reaches_anchor hg ha hlast) hreach hreach' (reaches_anchor hg hb hlast')

theorem placeable_iff_unmixed (hg : g.WellFormed) (hall : ∀ e ∈ g.dataEdges, g.Local e) :
    g.Placeable ↔ g.Unmixed := by
  have hlast : ∀ {d b}, b ∈ g.bundles d → g.Adjacent b.anchor.node b.lastPeer.node :=
    fun {d b} hb => adjacent_peer hall hb (List.getLast_mem b.peers_ne_nil)
  constructor
  · intro hplace
    refine ⟨fun d b hb p hp hne => ?_, fun a ha b hb hp hnode => ?_⟩
    · refine (reaches_iff hg hb (hlast hb) (adjacent_peer hall hb hp) hne).mp ?_
      cases hs : g.shared d.opposite p with
      | false => exact hplace.peers d b hb p hp hs
      | true =>
        obtain ⟨a, ha, rfl⟩ := List.mem_map.mp (hg.mem_anchors_iff.mpr hs)
        rw [hplace.scope_eq hb ha hp]
        exact reaches_anchor hg ha (hlast ha)
    · exact (scope_eq_iff_of_node_eq hg ha hb (hlast ha) (hlast hb) hnode).mp
        (hplace.crossings a ha b hb hp)
  · intro hunmixed
    have hreaches : ∀ {d b p}, b ∈ g.bundles d → p ∈ b.peers → p.node ≠ b.anchor.node →
        g.Reaches (g.rootOf b).scope p.node := fun {d b p} hb hp hne =>
      (reaches_iff hg hb (hlast hb) (adjacent_peer hall hb hp) hne).mpr
        (hunmixed.peers d b hb p hp hne)
    refine ⟨fun d b hb p hp _ => ?_, fun a ha b hb hp => ?_⟩
    · by_cases hnode : p.node = b.anchor.node
      · rw [hnode]
        exact reaches_anchor hg hb (hlast hb)
      · exact hreaches hb hp hnode
    · by_cases hnode : a.anchor.node = b.anchor.node
      · exact (scope_eq_iff_of_node_eq hg ha hb (hlast ha) (hlast hb) hnode).mpr
          (hunmixed.loops a ha b hb hp hnode)
      · have hback := (mem_peers_comm ha hb).mp hp
        exact scope_eq_of_reaches hg ha hb (hlast ha) (hlast hb) hnode
          (hreaches ha hp (Ne.symm hnode)) (hreaches hb hback hnode)

/-- Expanding the fans of a graph whose data edges are local keeps them local exactly if no fan has
peers on both sides of its node. -/
theorem local_expandFans_iff (hv : Validator.structural.accepts g = true)
    (h : g.expandFans.result = .ok c) (hall : ∀ e ∈ g.dataEdges, g.Local e) :
    (∀ e ∈ g.expandFans.graph.dataEdges, g.expandFans.graph.Local e) ↔ g.Unmixed := by
  have hg := accepts_iff.mp hv
  exact (local_expandFans_iff_placeable hg h hall).trans (placeable_iff_unmixed hg hall)

/-- Two neighbours: the output of one leads to the other and to an output of their scope, and at both
it is joined with something else. -/
def terrace : Graph where
  nodes := .ofList [
    .build "P" { inputs := some (.ofList [("x", .named "t"), ("y", .named "t")])
                 outputs := some (.ofList [("z", .named "t")]) } .unstated,
    .build "A" { outputs := some (.ofList [("o", .named "t")]) } (.inside "P"),
    .build "B" { inputs := some (.ofList [("i", .named "t")])
                 outputs := some (.ofList [("o", .named "t")]) } (.inside "P")]
  edges := [.between ⟨"A", "o"⟩ ⟨"P", "z"⟩, .between ⟨"A", "o"⟩ ⟨"B", "i"⟩,
    .between ⟨"B", "o"⟩ ⟨"P", "z"⟩, .between ⟨"P", "x"⟩ ⟨"B", "i"⟩]

theorem local_expandFans_terrace : Validator.structural.accepts terrace = true ∧
    terrace.expandFans.result = .ok ⟨3, 4, 7⟩ ∧ (∀ e ∈ terrace.dataEdges, terrace.Local e) ∧
      ∀ e ∈ terrace.expandFans.graph.dataEdges, terrace.expandFans.graph.Local e := by
  have hv : Validator.structural.accepts terrace = true := by decide
  have hrun : terrace.expandFans.result = .ok ⟨3, 4, 7⟩ := by decide +kernel
  have hall : ∀ e ∈ terrace.dataEdges, terrace.Local e := by decide
  have hunmixed : terrace.Unmixed := by
    refine ⟨fun d => ?_, by decide +kernel⟩
    cases d <;> decide +kernel
  exact ⟨hv, hrun, hall, (local_expandFans_iff hv hrun hall).mpr hunmixed⟩

/-- A compound whose input leads to a child and, last, through to its own output. -/
def passThrough : Graph where
  nodes := .ofList [
    .build "X" { inputs := some (.ofList [("a", .named "t")])
                 outputs := some (.ofList [("b", .named "t")]) } .unstated,
    .build "C" { inputs := some (.ofList [("i", .named "t")]) } (.inside "X")]
  edges := [.between ⟨"X", "a"⟩ ⟨"C", "i"⟩, .between ⟨"X", "a"⟩ ⟨"X", "b"⟩]

/-- The tree is put beside the compound, and its edge to the child leads into it. -/
theorem not_local_expandFans_passThrough : Validator.structural.accepts passThrough = true ∧
    passThrough.expandFans.result = .ok ⟨1, 2, 3⟩ ∧
      (∀ e ∈ passThrough.dataEdges, passThrough.Local e) ∧
        ∃ e ∈ passThrough.expandFans.graph.dataEdges, ¬ passThrough.expandFans.graph.Local e := by
  decide +kernel

end Graph
end PortNet
