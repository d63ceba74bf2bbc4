import PortNet.Proofs.Draining
import PortNet.Proofs.Normalization.Stepwise

namespace PortNet

theorem Synthesis.hasInside_twoWay (d : Direction) (id : NodeId) (type : PortType)
    (scope : Option NodeId) : (twoWay d id type scope).kind.hasInside = false := by
  cases d <;> rfl

namespace Graph
variable {g g' : Graph} {n : Node} {p : Port} {c : Change}

theorem unusedPorts_congr
    (h : ∀ name, g'.outDegree ⟨n.id, name⟩ = 0 ↔ g.outDegree ⟨n.id, name⟩ = 0) (side : Side)
    (scope : Option NodeId) : g'.unusedPorts n side scope = g.unusedPorts n side scope := by
  simp only [unusedPorts, h]

/-- A node that has no inside and all of whose outputs are used needs no sink. -/
theorem unconsumedAt_eq_nil (hinside : n.kind.hasInside = false)
    (hused : ∀ p ∈ n.portsOn .output, g.outDegree p ≠ 0) : g.unconsumedAt n = [] := by
  rw [← List.map_eq_nil_iff (f := Unconsumed.port), List.eq_nil_iff_forall_not_mem]
  intro p hp
  obtain ⟨hz, ⟨_, hport⟩ | ⟨hi, _⟩⟩ := mem_unconsumedAt.mp hp
  · exact hused p hport hz
  · rw [hinside] at hi
    cases hi

/-- A port is used by a continuation edge or by a data edge. -/
theorem outDegree_ne_zero_iff : g.outDegree p ≠ 0 ↔
    (∃ e, (e ∈ g.edges ∧ e.isContinuation = true) ∧ e.source = p) ∨ p ∈ g.nearEnds .outward := by
  rw [outDegree_ne_zero, mem_nearEnds_iff_edge]
  constructor
  · intro hall
    obtain ⟨e, he, hs⟩ := hall
    cases hc : e.isContinuation with
    | true => exact .inl ⟨e, ⟨he, hc⟩, hs⟩
    | false => exact .inr ⟨e, mem_dataEdges.mpr ⟨he, hc⟩, hs⟩
  · intro hall
    rcases hall with ⟨e, ⟨he, _⟩, hs⟩ | ⟨e, he, hs⟩
    · exact ⟨e, he, hs⟩
    · exact ⟨e, (mem_dataEdges.mp he).1, hs⟩

/-- A port is used by an edge that is no self-loop or by the route of a self-loop. -/
theorem outDegree_ne_zero_iff_loops : g.outDegree p ≠ 0 ↔
    (∃ e, (e ∈ g.edges ∧ (!e.isSelfLoop) = true) ∧ e.source = p) ∨
      ∃ r ∈ g.loops, r.source = p := by
  rw [outDegree_ne_zero]
  constructor
  · intro hall
    obtain ⟨e, he, hs⟩ := hall
    cases hl : e.isSelfLoop with
    | false => exact .inl ⟨e, ⟨he, by rw [hl]; rfl⟩, hs⟩
    | true => exact .inr ⟨e.route, mem_loops.mpr ⟨e, mem_selfLoops.mpr ⟨he, hl⟩, rfl⟩, hs⟩
  · intro hall
    rcases hall with ⟨e, ⟨he, _⟩, hs⟩ | ⟨r, hr, hs⟩
    · exact ⟨e, he, hs⟩
    · obtain ⟨e, he, rfl⟩ := mem_loops.mp hr
      exact ⟨e, (mem_selfLoops.mp he).1, hs⟩

end Graph

/-- The same ports lack a sink after a revision that uses the ports that were used before and the
outputs of its nodes, which have no inside, and no others. -/
theorem Revision.unconsumedPorts_eq {g g' : Graph} {keep : Edge → Bool} {batch : Batch}
    (h : Revision g g' keep batch) (hg : g.WellFormed)
    (hused : ∀ p, g'.outDegree p ≠ 0 ↔
      g.outDegree p ≠ 0 ∨ p ∈ batch.nodes.flatMap (fun n => n.portsOn .output))
    (hinside : ∀ n ∈ batch.nodes, n.kind.hasInside = false) :
    g'.unconsumedPorts = g.unconsumedPorts := by
  have hnew : batch.nodes.flatMap g'.unconsumedAt = [] := by
    refine List.flatMap_eq_nil_iff.mpr fun n hn => ?_
    refine Graph.unconsumedAt_eq_nil (hinside n hn) fun p hp => ?_
    exact (hused p).mpr (.inr (List.mem_flatMap.mpr ⟨n, hn, hp⟩))
  rw [Graph.unconsumedPorts, Graph.unconsumedPorts, h.nodes, List.flatMap_append, hnew,
    List.append_nil]
  refine List.flatMap_congr fun n hn => ?_
  have hdegree : ∀ name, g'.outDegree ⟨n.id, name⟩ = 0 ↔ g.outDegree ⟨n.id, name⟩ = 0 := by
    intro name
    refine not_iff_not.mp ((hused _).trans (or_iff_left fun hp => ?_))
    obtain ⟨m, hm, hp⟩ := List.mem_flatMap.mp hp
    exact h.fresh hm (Graph.contains_iff.mpr ⟨n, hn, Node.node_of_mem_portsOn hp⟩)
  simp only [Graph.unconsumedAt, h.insideLambda_eq hg hn, Graph.unusedPorts_congr hdegree]

namespace Graph
variable {g g' : Graph} {n : Node} {p : Port} {c : Change}

/-- Every branch of a tree is used, and a shared port goes on being used by its tree. -/
theorem unconsumedPorts_expandFans (hg : g.WellFormed) (h : g.expandFans.result = .ok c) :
    g.expandFans.graph.unconsumedPorts = g.unconsumedPorts := by
  refine (revision_expandFans hg h).unconsumedPorts_eq hg ?_ ?_
  · intro p
    have hcontinuation : ∀ e, (e ∈ g.expandFans.graph.edges ∧ e.isContinuation = true) ↔
        (e ∈ g.edges ∧ e.isContinuation = true) := fun e =>
      and_congr_left fun he => mem_expandFans_iff_of_continuation hg h he
    rw [outDegree_ne_zero_iff, outDegree_ne_zero_iff,
      (perm_nearEnds_expandFans hg h .outward).mem_iff, List.mem_append, mem_distinct, or_assoc]
    simp only [hcontinuation]
    rfl
  · intro n hn
    obtain ⟨d, b, _, hn⟩ := exists_twoWay_of_mem_fanPlan hn
    rw [hn]
    exact Synthesis.hasInside_twoWay d _ _ _

/-- A bridge is used at its one output, and the port that a loop has left is used by its bridge. -/
theorem unconsumedPorts_bridgeLoops (hg : g.WellFormed) (h : g.bridgeLoops.result = .ok c) :
    g.bridgeLoops.graph.unconsumedPorts = g.unconsumedPorts := by
  have hrevision := revision_bridgeLoops h
  refine hrevision.unconsumedPorts_eq hg ?_ ?_
  · intro p
    have hplan : (∃ e ∈ g.bridgePlan.edges, e.source = p) ↔ (∃ r ∈ g.loops, r.source = p) ∨
        p ∈ g.bridgePlan.nodes.flatMap (fun n => n.portsOn .output) := by
      rw [← List.mem_map, ← List.mem_map, ← List.mem_append]
      exact (perm_near_bridgePlan g .outward).mem_iff
    rw [outDegree_ne_zero, outDegree_ne_zero_iff_loops, or_assoc, ← hplan]
    simp only [hrevision.mem_edges_iff, or_and_right, exists_or]
  · intro n hn
    obtain ⟨r, _, rfl⟩ := List.mem_map.mp hn
    rfl

end Graph

/-- Only the pass for sinks changes which ports lack one. -/
theorem Pass.Stage.unconsumedPorts_eq {pass : Pass} {g g' : Graph} {enabled : Bool}
    (hg : g.WellFormed) (h : pass.Stage g enabled g') (hpass : pass ≠ .addSinks) :
    g'.unconsumedPorts = g.unconsumedPorts := by
  cases h with
  | off => rfl
  | on h =>
    cases pass with
    | expandFans => exact Graph.unconsumedPorts_expandFans hg h
    | bridgeLoops => exact Graph.unconsumedPorts_bridgeLoops hg h
    | addSinks => exact absurd rfl hpass

namespace Graph
variable {g g' : Graph} {o : Options}

/-- A normalization without the pass for sinks leaves the same ports without one. -/
theorem unconsumedPorts_normalize_off (h : g.normalize o = .ok g') (hoff : o.addSinks = false) :
    g'.unconsumedPorts = g.unconsumedPorts := by
  obtain ⟨hg, g₁, g₂, hfans, hloops, hsinks⟩ := stages_of_normalize h
  have hg₁ := hfans.wellFormed hg
  rw [hoff] at hsinks
  cases hsinks with
  | off =>
    rw [hloops.unconsumedPorts_eq hg₁ (by decide), hfans.unconsumedPorts_eq hg (by decide)]

theorem passes_addSinks (hon : o.addSinks = true) :
    o.passes = Options.passes { o with addSinks := false } ++ [.addSinks] := by
  obtain ⟨fans, loops, sinks⟩ := o
  obtain rfl : sinks = true := hon
  cases fans <;> cases loops <;> rfl

/-- Sinks come last, so that a normalization with them goes on from one without them. -/
theorem normalize_addSinks (hg : g.WellFormed) (hon : o.addSinks = true) :
    g.normalize o = (g.normalize { o with addSinks := false }).bind Pass.addSinks.attempt := by
  rw [normalize_eq_foldlM hg, normalize_eq_foldlM hg, passes_addSinks hon, List.foldlM_append]
  refine bind_congr fun left => ?_
  exact bind_pure _

/-- The edge that is added for an unconsumed port brings its values to the input of its sink. -/
theorem route_edge_unconsumed (u : Unconsumed) :
    u.edge.route = ⟨u.port, ⟨u.sink.id, "all"⟩⟩ ∧ u.edge.isContinuation = false :=
  ⟨rfl, rfl⟩

/-- Which ports lack a sink does not depend on the other passes, so that whichever of them run, a
normalization ends with one sink for each port that lacks one in the graph that it starts from, in
the order of these ports. Each sink has the type of its port and stands in the scope that belongs to
it, and the edge added for the port is the only one that leaves it. -/
theorem drainage_independent (hv : Validator.structural.accepts g = true) :
    (∀ c, g.expandFans.result = .ok c →
      g.expandFans.graph.unconsumedPorts = g.unconsumedPorts) ∧
    (∀ c, g.bridgeLoops.result = .ok c →
      g.bridgeLoops.graph.unconsumedPorts = g.unconsumedPorts) ∧
    ∀ (o : Options) (g' : Graph), o.addSinks = true → g.normalize o = .ok g' →
      ∃ left, g.normalize { o with addSinks := false } = .ok left ∧
        g'.nodes.toList = left.nodes.toList ++ g.unconsumedPorts.map Unconsumed.sink ∧
        g'.edges = left.edges ++ g.unconsumedPorts.map Unconsumed.edge ∧
        ∀ u ∈ g.unconsumedPorts, u.edge.route = ⟨u.port, ⟨u.sink.id, "all"⟩⟩ ∧
          u.edge.isContinuation = false ∧ g'.Consumes u u.sink := by
  have hg := accepts_iff.mp hv
  refine ⟨fun c => unconsumedPorts_expandFans hg, fun c => unconsumedPorts_bridgeLoops hg, ?_⟩
  intro o g' hon h
  rw [normalize_addSinks hg hon] at h
  obtain ⟨left, hleft, hdrain⟩ := bind_eq_ok.mp h
  obtain ⟨c, hrun, rfl⟩ := Pass.attempt_eq_ok.mp hdrain
  have hrevision := revision_addSinks hrun
  have hports : left.unconsumedPorts = g.unconsumedPorts := unconsumedPorts_normalize_off hleft rfl
  have hplan : left.sinkPlan = sinksAt g.unconsumedPorts := by rw [sinkPlan, hports]
  rw [hplan] at hrevision
  refine ⟨left, hleft, hrevision.nodes, hrevision.edges.trans ?_, fun u hu => ?_⟩
  · rw [List.filter_true]
    rfl
  · obtain ⟨hroute, hdata⟩ := route_edge_unconsumed u
    exact ⟨hroute, hdata, consumes_sink hrun (hports ▸ hu)⟩

/-- Of the outputs in the sample only those of `d` and `x` lead nowhere, before the fans are
expanded and the loop is bridged as well as after that. In the end each leads to a sink of its own. -/
theorem drainage_independent_sample : Validator.structural.accepts sample = true ∧
    sample.expandFans.result = .ok ⟨2, 3, 5⟩ ∧ sample.bridgeLoops.result = .ok ⟨1, 1, 2⟩ ∧
      sample.unconsumedPorts.map Unconsumed.port = [⟨"d", "o"⟩, ⟨"x", "o"⟩] ∧
      sample.expandFans.graph.unconsumedPorts = sample.unconsumedPorts ∧
      sample.bridgeLoops.graph.unconsumedPorts = sample.unconsumedPorts ∧
      ∃ g' left, sample.normalize {} = .ok g' ∧
        sample.normalize { addSinks := false } = .ok left ∧
        g'.nodes.toList = left.nodes.toList ++ sample.unconsumedPorts.map Unconsumed.sink ∧
        g'.edges = left.edges ++ sample.unconsumedPorts.map Unconsumed.edge ∧
        (sample.unconsumedPorts.map fun u => u.edge.route) =
          [⟨⟨"d", "o"⟩, ⟨"d_consume_dummy_o", "all"⟩⟩,
            ⟨⟨"x", "o"⟩, ⟨"x_consume_dummy_o", "all"⟩⟩] ∧
        ∀ u ∈ sample.unconsumedPorts, u.edge.route = ⟨u.port, ⟨u.sink.id, "all"⟩⟩ ∧
          u.edge.isContinuation = false ∧ g'.Consumes u u.sink := by
  have hv : Validator.structural.accepts sample = true := by decide
  have hfans : sample.expandFans.result = .ok ⟨2, 3, 5⟩ := by decide +kernel
  have hloops : sample.bridgeLoops.result = .ok ⟨1, 1, 2⟩ := by decide +kernel
  obtain ⟨hexpanded, hbridged, hsinks⟩ := drainage_independent hv
  obtain ⟨g', h⟩ := exists_normalize_sample
  obtain ⟨left, hleft, hnodes, hedges, hserved⟩ := hsinks {} g' rfl h
  exact ⟨hv, hfans, hloops, by decide, hexpanded _ hfans, hbridged _ hloops, g', left, h, hleft,
    hnodes, hedges, by decide, hserved⟩

end Graph
end PortNet
