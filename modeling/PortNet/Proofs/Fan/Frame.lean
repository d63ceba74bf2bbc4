import PortNet.Proofs.Fan.Wiring

namespace PortNet

namespace Graph

variable {g : Graph} {b : Bundle} {d : Direction} {p : Port} {e e' : Edge}

/-- A tree is never put into a scope that does not exist. -/
theorem contains_of_fanScope (hg : g.WellFormed) {anchor last q : NodeId}
    (h : g.fanScope anchor last = .ok (some q)) : g.contains q = true := by
  unfold fanScope at h
  split at h
  · cases h
  · rename_i hfind
    have hall : ∀ id ∈ [anchor, last], g.contains id = true := by
      simpa using List.find?_eq_none.mp hfind
    split at h
    · exact hg.parent_contains (Except.ok.inj h)
    · split at h
      · cases h
        exact hall _ (by simp)
      · cases h
        exact hall _ (by simp)

theorem contains_scope_rootOf (hg : g.WellFormed) {q : NodeId}
    (h : (g.rootOf b).scope = some q) : g.contains q = true := by
  cases hs : g.fanScope b.anchor.node b.lastPeer.node with
  | error problem => simp [rootOf, hs, Except.toOption] at h
  | ok scope =>
    have hscope : scope = some q := by simpa [rootOf, hs, Except.toOption] using h
    exact contains_of_fanScope hg (hscope ▸ hs)

theorem contains_parent_fanPlan (hg : g.WellFormed) {n : Node} (hn : n ∈ g.fanPlan.nodes)
    {q : NodeId} (hq : n.parent? = some q) : g.contains q = true := by
  obtain ⟨d, b, _, hn⟩ := exists_twoWay_of_mem_fanPlan hn
  rw [hn, Synthesis.parent?_twoWay] at hq
  exact contains_scope_rootOf hg hq

theorem near_of_mem_fanPlan (hg : g.WellFormed) (hf : g.FreshPlan) (d : Direction)
    (he : e ∈ g.fanPlan.edges) :
    d.near e ∈ g.nearEnds d ∨ ∃ n ∈ g.fanPlan.nodes, d.near e ∈ n.portsOn d.side := by
  have hm := (perm_near_fanPlan hg hf d).mem_iff.mp (List.mem_map.mpr ⟨e, he, rfl⟩)
  rcases List.mem_append.mp hm with hm | hm
  · rcases List.mem_append.mp hm with hm | hm
    · exact .inl (mem_nearEnds_of_shared (hg.mem_anchors_iff.mp hm))
    · obtain ⟨r, hr, hend⟩ := List.mem_map.mp hm
      exact .inl (mem_nearEnds.mpr ⟨r, (List.mem_filter.mp hr).1, hend⟩)
  · exact .inr (List.mem_flatMap.mp hm)

/-- Expanding the fans of a well-formed graph gives a well-formed graph. -/
theorem wellFormed_expandFans (hg : g.WellFormed) {c : Change}
    (h : g.expandFans.result = .ok c) : g.expandFans.graph.WellFormed := by
  have hrevision := revision_expandFans hg h
  have hf := freshPlan_of_expandFans hg h
  have hdeclares : ∀ e ∈ g.fanPlan.edges, ∀ d : Direction,
      g.expandFans.graph.Declares (d.near e) := by
    intro e he d
    rcases near_of_mem_fanPlan hg hf d he with hold | ⟨n, hn, hp⟩
    · exact hrevision.declares (hg.declares_nearEnd hold)
    · exact hrevision.declares_of_mem_portsOn hn hp
  exact hrevision.wellFormed hg (fun n hn q hq => contains_parent_fanPlan hg hn hq)
    fun e he => ⟨hdeclares e he .outward, hdeclares e he .inward⟩

theorem mem_ids_fanPlan {id : NodeId} : id ∈ g.fanPlan.ids ↔
    (∃ b ∈ g.bundles .inward, id ∈ (g.inTree b).ids) ∨
      ∃ b ∈ g.bundles .outward, id ∈ (g.outTree b).ids := by
  rw [ids_fanPlan, List.mem_append, List.mem_flatMap, List.mem_flatMap]

theorem spanning_draw_ne_leaf (b : Bundle) (p : Port) :
    FanTree.spanning (g.feeds.draw b.routes) ≠ .leaf p := by
  apply FanTree.spanning_ne_leaf
  rw [Feeds.length_draw, Bundle.routes, List.length_map]
  exact b.shared

theorem mem_dataEdges_of_mem_fanPlan (hg : g.WellFormed) {c : Change}
    (h : g.expandFans.result = .ok c) (he : e ∈ g.fanPlan.edges) :
    e ∈ g.expandFans.graph.dataEdges :=
  mem_dataEdges.mpr ⟨(revision_expandFans hg h).mem_edges_iff.mpr (.inr he),
    isContinuation_of_mem_fanPlan he⟩

/-- Every planned edge has an end at a planned node. -/
theorem touches_of_mem_fanPlan (he : e ∈ g.fanPlan.edges) :
    e.source.node ∈ g.fanPlan.ids ∨
      e.target.node ∈ g.fanPlan.ids := by
  rcases mem_edges_fanPlan.mp he with ⟨b, hb, he⟩ | ⟨b, hb, he, _⟩
  · have hin : ∀ id ∈ (g.inTree b).ids, id ∈ g.fanPlan.ids :=
      fun id hid => mem_ids_fanPlan.mpr (.inl ⟨b, hb, hid⟩)
    rcases FanTree.touches_of_mem_batch (spanning_draw_ne_leaf b) he with ht | hs
    · exact .inr (hin _ ht)
    · exact .inl (hin _ hs)
  · have hout : ∀ id ∈ (g.outTree b).ids, id ∈ g.fanPlan.ids :=
      fun id hid => mem_ids_fanPlan.mpr (.inr ⟨b, hb, hid⟩)
    rcases FanTree.touches_of_mem_batch (FanTree.spanning_ne_leaf b.shared) he with hs | ht
    · exact .inl (hout _ hs)
    · exact .inr (hout _ ht)

/-- What a join draws comes from the graph or from a duplicate tree. -/
theorem node_of_mem_draw (hg : g.WellFormed) (hf : g.FreshPlan) (hb : b ∈ g.bundles .inward)
    (hp : p ∈ g.feeds.draw b.routes) : g.contains p.node = true ∨
      ∃ a ∈ g.bundles .outward, p.node ∈ (g.outTree a).ids := by
  have hm := (perm_draws hg hf).mem_iff.mp (List.mem_flatMap.mpr ⟨b, hb, hp⟩)
  rcases List.mem_append.mp hm with hm | hm
  · obtain ⟨f, hfeed, rfl⟩ := List.mem_map.mp hm
    obtain ⟨a, ha, e, he, _, rfl⟩ := mem_feeds.mp hfeed
    rcases FanTree.near_of_mem_batch he with hroot | hnode
    · left
      have hc := (mem_bundles.mp ha).1
      change g.contains (Direction.outward.near e).node = true
      rwa [hroot]
    · exact .inr ⟨a, ha, hnode⟩
  · obtain ⟨r, hr, rfl⟩ := List.mem_map.mp hm
    exact .inl (hg.contains_nearEnd
      (mem_nearEnds.mpr ⟨r, (List.mem_filter.mp hr).1, rfl⟩ : r.source ∈ g.nearEnds .outward))

/-- No leaf of a join tree is a node of that tree. -/
theorem draw_not_mem_inTree (hg : g.WellFormed) (hf : g.FreshPlan)
    (hids : (g.fanPlan.ids).Nodup) (hb : b ∈ g.bundles .inward) (hp : p ∈ g.feeds.draw b.routes) :
    p.node ∉ (g.inTree b).ids := by
  intro hm
  rw [ids_fanPlan] at hids
  rcases node_of_mem_draw hg hf hb hp with hc | ⟨a, ha, hm'⟩
  · exact hf.inTree hb hm hc
  · exact (List.nodup_append.mp hids).2.2 _ (List.mem_flatMap.mpr ⟨b, hb, hm⟩) _
      (List.mem_flatMap.mpr ⟨a, ha, hm'⟩) rfl

/-- Nor is a leaf of a duplicate tree. -/
theorem peer_not_mem_outTree (hg : g.WellFormed) (hf : g.FreshPlan)
    (hb : b ∈ g.bundles .outward) (hp : p ∈ b.peers) : p.node ∉ (g.outTree b).ids :=
  fun hm => hf.outTree hb hm (hg.contains_peer hb hp)

theorem not_isSelfLoop_of_inTree (hg : g.WellFormed) (hf : g.FreshPlan)
    (hids : (g.fanPlan.ids).Nodup) (hb : b ∈ g.bundles .inward)
    (he : e ∈ (g.inTree b).edges) : e.isSelfLoop = false := by
  have hleaves := fun p => draw_not_mem_inTree (p := p) hg hf hids hb
  rw [ids_fanPlan] at hids
  obtain ⟨hins, _, _⟩ := List.nodup_append.mp hids
  have hroot : (g.rootOf b).port.node ∉ (g.inTree b).ids :=
    fun hm => hf.inTree hb hm (mem_bundles.mp hb).1
  have hne := FanTree.near_node_ne_far_node (fun p hp => absurd hp (spanning_draw_ne_leaf b p))
    (List.nodup_cons.mpr ⟨hroot, (List.nodup_flatMap.mp hins).1 b hb⟩) ?_ he
  · exact decide_eq_false fun heq => hne heq.symm
  · rwa [FanTree.leaves_spanning (draw_ne_nil b g.feeds)]

theorem not_isSelfLoop_of_outTree (hg : g.WellFormed) (hf : g.FreshPlan)
    (hids : (g.fanPlan.ids).Nodup) (hb : b ∈ g.bundles .outward)
    (he : e ∈ (g.outTree b).edges) : e.isSelfLoop = false := by
  rw [ids_fanPlan] at hids
  obtain ⟨_, houts, _⟩ := List.nodup_append.mp hids
  have hroot : (g.rootOf b).port.node ∉ (g.outTree b).ids :=
    fun hm => hf.outTree hb hm (mem_bundles.mp hb).1
  have hne := FanTree.near_node_ne_far_node
    (fun p hp => absurd hp (FanTree.spanning_ne_leaf b.shared p))
    (List.nodup_cons.mpr ⟨hroot, (List.nodup_flatMap.mp houts).1 b hb⟩) ?_ he
  · exact decide_eq_false hne
  · rw [FanTree.leaves_spanning b.peers_ne_nil]
    exact fun p => peer_not_mem_outTree hg hf hb

/-- No planned edge starts and ends at one node. -/
theorem not_isSelfLoop_of_mem_fanPlan (hg : g.WellFormed) {c : Change}
    (h : g.expandFans.result = .ok c) (he : e ∈ g.fanPlan.edges) : e.isSelfLoop = false := by
  have hf := freshPlan_of_expandFans hg h
  have hids := (revision_expandFans hg h).nodup_batch
  rcases mem_edges_fanPlan.mp he with ⟨b, hb, he⟩ | ⟨b, hb, he, _⟩
  · exact not_isSelfLoop_of_inTree hg hf hids hb he
  · exact not_isSelfLoop_of_outTree hg hf hids hb he

theorem mem_expandFans_iff_of_continuation (hg : g.WellFormed) {change : Change}
    (h : g.expandFans.result = .ok change) (he : e.isContinuation = true) :
    e ∈ g.expandFans.graph.edges ↔ e ∈ g.edges := by
  rw [(revision_expandFans hg h).mem_edges_iff]
  constructor
  · intro hall
    rcases hall with ⟨hold, _⟩ | hnew
    · exact hold
    · rw [isContinuation_of_mem_fanPlan hnew] at he
      cases he
  · intro hold
    exact .inl ⟨hold, by simp [bundled, he]⟩

/-- A planned edge whose near end is on an old node takes over from an old edge there. -/
theorem near_mem_nearEnds_of_mem_fanPlan (hg : g.WellFormed) {c : Change}
    (h : g.expandFans.result = .ok c) (he : e ∈ g.fanPlan.edges)
    (hold : g.contains (d.near e).node = true) : d.near e ∈ g.nearEnds d := by
  rcases near_of_mem_fanPlan hg (freshPlan_of_expandFans hg h) d he with hm | ⟨n, hn, hp⟩
  · exact hm
  · rw [Node.node_of_mem_portsOn hp] at hold
    exact absurd hold ((revision_expandFans hg h).fresh hn)

/-- At the port of a planned edge all old edges were bundled. -/
theorem bundled_of_mem_fanPlan (hg : g.WellFormed) {c : Change}
    (h : g.expandFans.result = .ok c) (he : e ∈ g.dataEdges) (he' : e' ∈ g.fanPlan.edges)
    (hnear : d.near e' = d.near e) : g.bundled e = true := by
  by_contra hkept
  have hends := nodup_nearEnds_expandFans hg h d
  rw [(revision_expandFans hg h).nearEnds_eq fun e => isContinuation_of_mem_fanPlan] at hends
  have hfirst : d.near e ∈ (g.dataEdges.filter (fun e => !g.bundled e)).map d.near :=
    List.mem_map.mpr ⟨e, List.mem_filter.mpr ⟨he, by simpa using hkept⟩, rfl⟩
  exact (List.nodup_append.mp hends).2.2 _ hfirst _ (List.mem_map.mpr ⟨e', he', rfl⟩) hnear.symm

/-- At the port of a bundled edge only planned edges are left. -/
theorem mem_fanPlan_of_bundled (hg : g.WellFormed) {c : Change}
    (h : g.expandFans.result = .ok c) (he : e ∈ g.dataEdges) (hb : g.bundled e = true)
    (he' : e' ∈ g.expandFans.graph.dataEdges) (hnear : d.near e' = d.near e) :
    e' ∈ g.fanPlan.edges := by
  obtain ⟨hedge', hdata'⟩ := mem_dataEdges.mp he'
  rcases (revision_expandFans hg h).mem_edges_iff.mp hedge' with ⟨hold, hkept⟩ | hnew
  · -- An edge that stays shares no port, so the bundled edge would run along its route.
    have hlone : g.bundled e' = false := by simpa using hkept
    have hboth := hlone
    rw [bundled_eq hdata' d, Bool.or_eq_false_iff] at hboth
    have hroute := route_eq_of_not_shared (mem_dataEdges.mpr ⟨hold, hdata'⟩) he hnear.symm hboth.1
    have hdata := (mem_dataEdges.mp he).2
    rw [bundled_congr (hdata.trans hdata'.symm) hroute, hlone] at hb
    cases hb
  · exact hnew

end Graph
end PortNet
