import PortNet.Proofs.SelfLoop

namespace PortNet

/-- Where only one member contributes to a list, the list is what that member contributes. -/
theorem flatMap_eq_of_nodup {α β : Type} {xs : List α} {part : α → List β} {x : α}
    (hnodup : xs.Nodup) (hx : x ∈ xs) (hother : ∀ y ∈ xs, y ≠ x → part y = []) :
    xs.flatMap part = part x := by
  obtain ⟨before, after, rfl⟩ := List.append_of_mem hx
  obtain ⟨_, hafter, hdisjoint⟩ := List.nodup_append.mp hnodup
  have hempty : before.flatMap part = [] := by
    refine List.flatMap_eq_nil_iff.mpr fun y hy => ?_
    exact hother y (List.mem_append_left _ hy) (hdisjoint y hy x List.mem_cons_self)
  have hrest : after.flatMap part = [] := by
    refine List.flatMap_eq_nil_iff.mpr fun y hy => ?_
    refine hother y (List.mem_append_right _ (List.mem_cons_of_mem _ hy)) ?_
    rintro rfl
    exact (List.nodup_cons.mp hafter).1 hy
  rw [List.flatMap_append, hempty, List.flatMap_cons, hrest, List.nil_append, List.append_nil]

/-- Whether one of the ends of an edge is at a node. -/
def Edge.touches (e : Edge) (id : NodeId) : Bool := e.source.node = id || e.target.node = id

theorem Edge.touches_iff {e : Edge} {id : NodeId} :
    e.touches id = true ↔ e.source.node = id ∨ e.target.node = id := by
  simp [touches]

namespace Graph

/-- The node `b` of `g'` stands for the self-loops of `g` on a route: it is a child of the looping
node, its types are those of the ports of that node crosswise, and the only edges that it touches
lead from the source of the route into it and from it to the target. -/
structure Spans (g g' : Graph) (r : Route) (b : Node) : Prop where
  component : b.value.componentName = Synthesis.bridgeComponent
  parent : b.parent? = some r.source.node
  types : ∃ n, g.node? r.source.node = some n ∧ ∃ input output,
    Dictionary.get? n.outputs r.target.name = some input ∧
    Dictionary.get? n.inputs r.source.name = some output ∧
    b.inputs.toList = [("input", input)] ∧ b.outputs.toList = [("output", output)]
  touching : (g'.edges.filter (fun e => e.touches b.id)).map Edge.route =
    [⟨r.source, ⟨b.id, "input"⟩⟩, ⟨⟨b.id, "output"⟩, r.target⟩]

/-- A graph `g'` is `g` with a bridge in place of the self-loops on each route, and nothing else has
changed. -/
structure Bridged (g g' : Graph) (bridges : List Node) (new : List Edge) : Prop where
  nodes : g'.nodes.toList = g.nodes.toList ++ bridges
  extras : g'.extras = g.extras
  edges : g'.edges = g.edges.filter (fun e => e.source.node ≠ e.target.node) ++ new
  attached : ∀ e ∈ new, ∃ b ∈ bridges, e.touches b.id = true
  loopless : ∀ e ∈ g'.edges, e.source.node ≠ e.target.node
  one : ∀ e ∈ g.edges, e.source.node = e.target.node →
    ∃! b, b ∈ bridges ∧ g.Spans g' e.route b
  only : ∀ b ∈ bridges, ∃ e ∈ g.edges, e.source.node = e.target.node ∧ g.Spans g' e.route b
  connected : ∀ s t, g.contains s.node = true → g.contains t.node = true →
    ((∃ e ∈ g.edges, e.route = ⟨s, t⟩) ↔ (∃ e ∈ g'.edges, e.route = ⟨s, t⟩) ∨
      ∃ b ∈ bridges, (∃ e ∈ g'.edges, e.route = ⟨s, ⟨b.id, "input"⟩⟩) ∧
        ∃ e ∈ g'.edges, e.route = ⟨⟨b.id, "output"⟩, t⟩)

variable {g : Graph} {r q : Route} {e : Edge} {c : Change}

theorem looping_eq_of_ok {p : Port} {side : Side} {type : PortType}
    (h : g.loopType p side = .ok type) : g.looping p side = type := by
  rw [looping, h]
  rfl

/-- Bridging succeeds only if every loop passes through its node. -/
theorem exists_bridge_of_bridgeLoops (h : g.bridgeLoops.result = .ok c) (hr : r ∈ g.loops) :
    ∃ b, g.bridge r = .ok b := by
  by_contra hno
  obtain ⟨port, side, hfailed⟩ := bridgeLoops_undeclared hr hno
  rw [hfailed] at h
  cases h

theorem types_bridgeAt (hloop : r.source.node = r.target.node) {b : Bridge}
    (hb : g.bridge r = .ok b) : ∃ n, g.node? r.source.node = some n ∧ ∃ input output,
      Dictionary.get? n.outputs r.target.name = some input ∧
      Dictionary.get? n.inputs r.source.name = some output ∧
      (g.bridgeAt r).node.inputs.toList = [("input", input)] ∧
      (g.bridgeAt r).node.outputs.toList = [("output", output)] := by
  obtain ⟨input, hinput, hb⟩ := bind_eq_ok.mp hb
  obtain ⟨output, houtput, _⟩ := bind_eq_ok.mp hb
  obtain ⟨n, hn, ht⟩ := loopType_eq_ok.mp hinput
  obtain ⟨m, hm, hs⟩ := loopType_eq_ok.mp houtput
  rw [← hloop, hm, Option.some.injEq] at hn
  subst hn
  refine ⟨m, hm, input, output, ht, hs, ?_, ?_⟩
  · rw [← looping_eq_of_ok hinput]
    rfl
  · rw [← looping_eq_of_ok houtput]
    rfl

/-- The id of a bridge is none of the old ones. -/
theorem ne_bridgeId (h : g.bridgeLoops.result = .ok c) (hr : r ∈ g.loops) {id : NodeId}
    (hc : g.contains id = true) : id ≠ Synthesis.bridgeId r := by
  rintro rfl
  have hnode : (g.bridgeAt r).node ∈ g.bridgePlan.nodes := List.mem_map.mpr ⟨r, hr, rfl⟩
  exact (revision_bridgeLoops h).fresh hnode hc

/-- Two loops never have the same bridge. -/
theorem eq_of_bridgeId (h : g.bridgeLoops.result = .ok c) (hr : r ∈ g.loops) (hq : q ∈ g.loops)
    (hid : Synthesis.bridgeId r = Synthesis.bridgeId q) : r = q := by
  have hnodup := (revision_bridgeLoops h).nodup_batch
  rw [ids_bridgePlan] at hnodup
  exact List.inj_on_of_nodup_map hnodup hr hq hid

section Result
variable (hg : g.WellFormed) (h : g.bridgeLoops.result = .ok c)
include hg h

theorem touches_bridgeAt_iff (hr : r ∈ g.loops) (hq : q ∈ g.loops)
    (he : e ∈ (g.bridgeAt q).edges) : e.touches (Synthesis.bridgeId r) = true ↔ q = r := by
  obtain ⟨hs, ht, _⟩ := hg.declares_loop hq
  have hsource : q.source.node ≠ Synthesis.bridgeId r := ne_bridgeId h hr hs.contains
  have htarget : q.target.node ≠ Synthesis.bridgeId r := ne_bridgeId h hr ht.contains
  have hid : Synthesis.bridgeId q = Synthesis.bridgeId r ↔ q = r :=
    ⟨eq_of_bridgeId h hq hr, fun heq => by rw [heq]⟩
  rw [Edge.touches_iff]
  rcases List.mem_pair.mp he with rfl | rfl
  · exact (or_iff_right hsource).trans hid
  · exact (or_iff_left htarget).trans hid

/-- A bridge touches its own two edges and no other one. -/
theorem filter_touches_bridgeLoops (hr : r ∈ g.loops) :
    g.bridgeLoops.graph.edges.filter (fun e => e.touches (Synthesis.bridgeId r)) =
      (g.bridgeAt r).edges := by
  have hold : (g.edges.filter (fun e => !e.isSelfLoop)).filter
      (fun e => e.touches (Synthesis.bridgeId r)) = [] := by
    refine List.filter_eq_nil_iff.mpr fun e he htouch => ?_
    obtain ⟨hs, ht⟩ := hg.ends e (List.mem_filter.mp he).1
    rcases Edge.touches_iff.mp htouch with heq | heq
    · exact ne_bridgeId h hr hs.contains heq
    · exact ne_bridgeId h hr ht.contains heq
  have hnodup : g.loops.Nodup := nodup_distinct _
  rw [(revision_bridgeLoops h).edges, List.filter_append, hold, List.nil_append, bridgePlan,
    List.filter_flatMap, flatMap_eq_of_nodup hnodup hr]
  · exact List.filter_eq_self.mpr fun e he => (touches_bridgeAt_iff hg h hr hr he).mpr rfl
  · intro q hq hne
    refine List.filter_eq_nil_iff.mpr fun e he htouch => hne ?_
    exact (touches_bridgeAt_iff hg h hr hq he).mp htouch

theorem spans_bridgeAt (hr : r ∈ g.loops) : g.Spans g.bridgeLoops.graph r (g.bridgeAt r).node where
  component := rfl
  parent := rfl
  types := by
    obtain ⟨b, hb⟩ := exists_bridge_of_bridgeLoops h hr
    exact types_bridgeAt (hg.declares_loop hr).2.2 hb
  touching := congrArg (List.map Edge.route) (filter_touches_bridgeLoops hg h hr)

/-- From the edges at a bridge its loop can be read off. -/
theorem eq_of_spans (hr : r ∈ g.loops)
    (hq : g.Spans g.bridgeLoops.graph q (g.bridgeAt r).node) : q = r := by
  have hsame := hq.touching.symm.trans (spans_bridgeAt hg h hr).touching
  simp only [List.cons.injEq, Route.mk.injEq, and_true, true_and] at hsame
  obtain ⟨hs, ht⟩ := hsame
  exact congrArg₂ Route.mk hs ht

theorem route_of_touches (hr : r ∈ g.loops) (he : e ∈ g.bridgeLoops.graph.edges)
    (htouch : e.touches (Synthesis.bridgeId r) = true) :
    e.route = ⟨r.source, ⟨Synthesis.bridgeId r, "input"⟩⟩ ∨
      e.route = ⟨⟨Synthesis.bridgeId r, "output"⟩, r.target⟩ := by
  have hm : e ∈ (g.bridgeAt r).edges :=
    filter_touches_bridgeLoops hg h hr ▸ List.mem_filter.mpr ⟨he, htouch⟩
  rcases List.mem_pair.mp hm with rfl | rfl
  · exact .inl rfl
  · exact .inr rfl

/-- What enters a bridge from an old node comes from the source of its loop. -/
theorem source_of_entry (hr : r ∈ g.loops) {s : Port} (hs : g.contains s.node = true)
    (he : e ∈ g.bridgeLoops.graph.edges)
    (hroute : e.route = ⟨s, ⟨Synthesis.bridgeId r, "input"⟩⟩) : s = r.source := by
  obtain ⟨hsource, htarget⟩ := Route.mk.inj hroute
  have htouch := Edge.touches_iff.mpr (.inr (congrArg Port.node htarget))
  rcases route_of_touches hg h hr he htouch with hin | hout
  · exact (Route.mk.inj (hroute.symm.trans hin)).1
  · have heq := (Route.mk.inj (hroute.symm.trans hout)).1
    exact absurd (congrArg Port.node heq) (ne_bridgeId h hr hs)

/-- What leaves a bridge for an old node goes to the target of its loop. -/
theorem target_of_exit (hr : r ∈ g.loops) {t : Port} (ht : g.contains t.node = true)
    (he : e ∈ g.bridgeLoops.graph.edges)
    (hroute : e.route = ⟨⟨Synthesis.bridgeId r, "output"⟩, t⟩) : t = r.target := by
  obtain ⟨hsource, htarget⟩ := Route.mk.inj hroute
  have htouch := Edge.touches_iff.mpr (.inl (congrArg Port.node hsource))
  rcases route_of_touches hg h hr he htouch with hin | hout
  · have heq := (Route.mk.inj (hroute.symm.trans hin)).2
    exact absurd (congrArg Port.node heq) (ne_bridgeId h hr ht)
  · exact (Route.mk.inj (hroute.symm.trans hout)).2

/-- Between old nodes there are the old edges, some of them by way of a bridge. -/
theorem connected_bridgeLoops {s t : Port} (hs : g.contains s.node = true)
    (ht : g.contains t.node = true) : (∃ e ∈ g.edges, e.route = ⟨s, t⟩) ↔
      (∃ e ∈ g.bridgeLoops.graph.edges, e.route = ⟨s, t⟩) ∨ ∃ b ∈ g.bridgePlan.nodes,
        (∃ e ∈ g.bridgeLoops.graph.edges, e.route = ⟨s, ⟨b.id, "input"⟩⟩) ∧
        ∃ e ∈ g.bridgeLoops.graph.edges, e.route = ⟨⟨b.id, "output"⟩, t⟩ := by
  have hrevision := revision_bridgeLoops h
  constructor
  · rintro ⟨e, he, hroute⟩
    cases hloop : e.isSelfLoop with
    | false => exact .inl ⟨e, hrevision.mem_edges_iff.mpr (.inl ⟨he, by rw [hloop]; rfl⟩), hroute⟩
    | true =>
      have hr : (⟨s, t⟩ : Route) ∈ g.loops :=
        mem_loops.mpr ⟨e, mem_selfLoops.mpr ⟨he, hloop⟩, hroute⟩
      have hedges : ∀ e ∈ (g.bridgeAt ⟨s, t⟩).edges, e ∈ g.bridgeLoops.graph.edges := fun e he =>
        hrevision.mem_edges_iff.mpr (.inr (List.mem_flatMap.mpr ⟨_, hr, he⟩))
      exact .inr ⟨_, List.mem_map.mpr ⟨_, hr, rfl⟩,
        ⟨_, hedges _ List.mem_cons_self, rfl⟩,
        ⟨_, hedges _ (List.mem_cons_of_mem _ List.mem_cons_self), rfl⟩⟩
  · rintro (⟨e, he, hroute⟩ | ⟨b, hb, ⟨e, he, hin⟩, ⟨e', he', hout⟩⟩)
    · refine ⟨e, ?_, hroute⟩
      obtain ⟨rfl, rfl⟩ := Route.mk.inj hroute
      rcases hrevision.mem_edges_iff.mp he with ⟨hold, _⟩ | hnew
      · exact hold
      · obtain ⟨r, hr, ⟨_, hend⟩ | ⟨hend, _⟩⟩ := ends_of_mem_bridgePlan hnew
        · exact absurd hend (ne_bridgeId h hr ht)
        · exact absurd hend (ne_bridgeId h hr hs)
    · obtain ⟨r, hr, rfl⟩ := List.mem_map.mp hb
      obtain ⟨loop, hloop, hroute⟩ := mem_loops.mp hr
      refine ⟨loop, (mem_selfLoops.mp hloop).1, hroute.trans ?_⟩
      rw [source_of_entry hg h hr hs he hin, target_of_exit hg h hr ht he' hout]

theorem bridged_bridgePlan :
    Bridged g g.bridgeLoops.graph g.bridgePlan.nodes g.bridgePlan.edges where
  nodes := (revision_bridgeLoops h).nodes
  extras := (revision_bridgeLoops h).extras
  edges := by
    rw [(revision_bridgeLoops h).edges]
    congr 1
    apply List.filter_congr
    intro e _
    simp [Edge.isSelfLoop]
  attached e he := by
    obtain ⟨r, hr, hends⟩ := ends_of_mem_bridgePlan he
    refine ⟨_, List.mem_map.mpr ⟨r, hr, rfl⟩, Edge.touches_iff.mpr ?_⟩
    rcases hends with ⟨_, hend⟩ | ⟨hend, _⟩
    · exact .inr hend
    · exact .inl hend
  loopless e he := by
    have hnone := List.filter_eq_nil_iff.mp (selfLoops_bridgeLoops hg h)
    exact fun heq => hnone e he (decide_eq_true heq)
  one e he hloop := by
    have hr : e.route ∈ g.loops :=
      mem_loops.mpr ⟨e, mem_selfLoops.mpr ⟨he, decide_eq_true hloop⟩, rfl⟩
    refine ⟨_, ⟨List.mem_map.mpr ⟨_, hr, rfl⟩, spans_bridgeAt hg h hr⟩, ?_⟩
    rintro b ⟨hb, hspans⟩
    obtain ⟨q, hq, rfl⟩ := List.mem_map.mp hb
    rw [eq_of_spans hg h hq hspans]
  only b hb := by
    obtain ⟨r, hr, rfl⟩ := List.mem_map.mp hb
    obtain ⟨e, he, rfl⟩ := mem_loops.mp hr
    obtain ⟨he, hloop⟩ := mem_selfLoops.mp he
    exact ⟨e, he, of_decide_eq_true hloop, spans_bridgeAt hg h hr⟩
  connected _ _ hs ht := connected_bridgeLoops hg h hs ht

end Result

/-- Bridging takes every self-loop out of an accepted graph and keeps its nodes connected as they
were. -/
theorem exists_bridged (hv : Validator.structural.accepts g = true)
    (h : g.bridgeLoops.result = .ok c) :
    ∃ bridges new, Bridged g g.bridgeLoops.graph bridges new :=
  ⟨_, _, bridged_bridgePlan (accepts_iff.mp hv) h⟩

/-- Two compounds with loops. A name of the first one stands on both of its sides, with a type on
either, and leads to itself; a second loop of it comes twice, once as a continuation. -/
def looped : Graph where
  nodes := .ofList [
    .build "v" { inputs := some (.ofList [("p", .named "t"), ("q", .named "u")])
                 outputs := some (.ofList [("p", .named "u"), ("r", .named "t")]) } .unstated,
    .build "w" { inputs := some (.ofList [("a", .named "t")])
                 outputs := some (.ofList [("b", .named "u")]) } (.inside "v")]
  edges := [.between ⟨"v", "q"⟩ ⟨"v", "r"⟩, .between ⟨"w", "b"⟩ ⟨"v", "p"⟩,
    .between ⟨"v", "p"⟩ ⟨"v", "p"⟩, (Edge.between ⟨"v", "q"⟩ ⟨"v", "r"⟩).asContinuation,
    .between ⟨"w", "a"⟩ ⟨"w", "b"⟩, .between ⟨"v", "p"⟩ ⟨"w", "a"⟩]

/-- Of its four loops two run on one route, so that there are three bridges. -/
theorem exists_bridged_looped : Validator.structural.accepts looped = true ∧
    looped.bridgeLoops.result = .ok ⟨3, 4, 6⟩ ∧
      ∃ bridges new, Bridged looped looped.bridgeLoops.graph bridges new ∧
        bridges.map Node.id = ["id_v@q_to_v@r", "id_v@p_to_v@p", "id_w@a_to_w@b"] := by
  have hv : Validator.structural.accepts looped = true := by decide
  have hrun : looped.bridgeLoops.result = .ok ⟨3, 4, 6⟩ := by decide +kernel
  obtain ⟨bridges, new, hall⟩ := exists_bridged hv hrun
  refine ⟨hv, hrun, bridges, new, hall, ?_⟩
  have hids : looped.bridgeLoops.graph.nodes.toList.map Node.id =
      looped.nodes.toList.map Node.id ++ ["id_v@q_to_v@r", "id_v@p_to_v@p", "id_w@a_to_w@b"] := by
    decide +kernel
  rw [hall.nodes, List.map_append] at hids
  exact List.append_cancel_left hids

end Graph
end PortNet
