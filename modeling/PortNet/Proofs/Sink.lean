import Mathlib.Data.List.Perm.Basic
import PortNet.Proofs.Fan.Detection
import PortNet.Sink

namespace PortNet

namespace Synthesis
variable (id : NodeId) (type : PortType) (scope : Option NodeId)

@[simp] theorem parent?_sink : (sink id type scope).parent? = scope := by
  cases scope <;> rfl

theorem outputs_sink : (sink id type scope).portsOn .output = [] := rfl

theorem kind_sink : (sink id type scope).kind = ⟨true, false, false⟩ := rfl

end Synthesis

/-- An old node keeps its parent, and so lies inside a lambda as before. -/
theorem Revision.insideLambda_eq {g g' : Graph} {keep : Edge → Bool} {batch : Batch}
    (h : Revision g g' keep batch) (hg : g.WellFormed) {n : Node} (hn : n ∈ g.nodes.toList) :
    g'.insideLambda n = g.insideLambda n := by
  rw [Graph.insideLambda, Graph.insideLambda]
  cases hp : n.parent? with
  | none => rfl
  | some q =>
    rw [Option.bind_some, Option.bind_some, h.node?_of_contains (hg.parents n hn q hp)]

/-- As long as no new node is a lambda, the same nodes lie inside one, even if a missing parent is
among the new nodes. -/
theorem Revision.insideLambda_eq_of_kind {g g' : Graph} {keep : Edge → Bool} {batch : Batch}
    (h : Revision g g' keep batch) (hbatch : ∀ m ∈ batch.nodes, m.kind.lambda = false) (n : Node) :
    g'.insideLambda n = g.insideLambda n := by
  rw [Graph.insideLambda, Graph.insideLambda]
  cases n.parent? with
  | none => rfl
  | some q =>
    rw [Option.bind_some, Option.bind_some]
    by_cases hc : g.contains q = true
    · rw [h.node?_of_contains hc]
    · have hold : g.node? q = none :=
        Option.eq_none_iff_forall_ne_some.mpr fun m hm => hc (Graph.contains_iff_node?.mpr ⟨m, hm⟩)
      cases hnew : g'.node? q with
      | none => rw [hold]
      | some m =>
        obtain ⟨hm, rfl⟩ := Graph.node?_eq_some_iff.mp hnew
        rcases h.mem_nodes_iff.mp hm with hm | hm
        · exact absurd (Graph.contains_iff.mpr ⟨m, hm, rfl⟩) hc
        · rw [hold, Option.any_some, hbatch m hm, Option.any_none]

namespace Graph

/-- What attaching sinks to some ports adds. -/
def sinksAt (us : List Unconsumed) : Batch := ⟨us.map Unconsumed.sink, us.map Unconsumed.edge⟩

def sinkPlan (g : Graph) : Batch := sinksAt g.unconsumedPorts

variable {g g' : Graph} {n : Node} {u : Unconsumed} {p : Port} {e : Edge} {d : Direction}

theorem ids_sinkPlan (g : Graph) :
    g.sinkPlan.ids = g.unconsumedPorts.map (fun u => Synthesis.sinkId u.port) := by
  rw [Batch.ids, sinkPlan, sinksAt, List.map_map]
  rfl

theorem outDegree_eq_zero : g.outDegree p = 0 ↔ ∀ e ∈ g.edges, e.source ≠ p := by
  simp [outDegree]

theorem outDegree_ne_zero : g.outDegree p ≠ 0 ↔ ∃ e ∈ g.edges, e.source = p := by
  rw [Ne, outDegree_eq_zero]
  simp

theorem revision_attachSink (h : g.addNew [u.sink] = (g', none)) :
    Revision g (g'.push u.edge) (fun _ => true) (sinksAt [u]) := by
  obtain ⟨hn, he, hx⟩ := addNew_none h
  exact ⟨hn, by rw [push, he, List.filter_true]; rfl, hx⟩

theorem revision_attachSinks {us : List Unconsumed} (h : g.attachSinks us = (g', none)) :
    Revision g g' (fun _ => true) (sinksAt us) := by
  induction us generalizing g with
  | nil =>
    cases h
    exact Revision.refl _
  | cons u us ih =>
    rw [attachSinks] at h
    split at h
    · cases h
    · rename_i extended ha
      exact (revision_attachSink ha).trans (ih h)

/-- Adding sinks removes nothing and adds one sink and one edge for each unconsumed port. -/
theorem revision_addSinks {c : Change} (h : g.addSinks.result = .ok c) :
    Revision g g.addSinks.graph (fun _ => true) g.sinkPlan := by
  simp only [addSinks] at h ⊢
  split at h
  · cases h
  · rename_i drained ha
    exact revision_attachSinks ha

/-- Attaching sinks is stopped by the first whose id is taken, and those before it stay. -/
theorem attachSinks_stopped {us : List Unconsumed} {problem : Problem}
    (h : g.attachSinks us = (g', some problem)) :
    ∃ before u after, us = before ++ u :: after ∧ problem = .idInUse u.sink.id ∧
      g.Blocked (before.map Unconsumed.sink) u.sink ∧
      Revision g g' (fun _ => true) (sinksAt before) := by
  induction us generalizing g with
  | nil => cases h
  | cons u us ih =>
    rw [attachSinks] at h
    split at h
    · rename_i failed ha
      cases h
      obtain ⟨before, n, after, hsplit, rfl, hblocked, _⟩ := addNew_blocked ha
      obtain ⟨rfl, rfl, rfl⟩ : before = [] ∧ n = u.sink ∧ after = [] := by
        cases before <;> simp_all
      exact ⟨[], u, us, rfl, rfl, hblocked, Revision.refl _⟩
    · rename_i extended ha
      have hstep := revision_attachSink ha
      obtain ⟨before, v, after, rfl, rfl, hblocked, hrevision⟩ := ih h
      have hids : (extended.push u.edge).ids ++ (before.map Unconsumed.sink).map Node.id =
          g.ids ++ ((u :: before).map Unconsumed.sink).map Node.id := by
        rw [hstep.ids_eq, List.append_assoc]
        rfl
      exact ⟨u :: before, v, after, rfl, rfl, ⟨hids ▸ hblocked.free, hids ▸ hblocked.taken⟩,
        hstep.trans hrevision⟩

theorem attachSinks_some {us : List Unconsumed} {problem : Problem}
    (h : g.attachSinks us = (g', some problem)) :
    ∃ id, problem = .idInUse id ∧ ¬ (g.ids ++ (sinksAt us).ids).Nodup := by
  obtain ⟨before, u, after, rfl, rfl, hblocked, _⟩ := attachSinks_stopped h
  refine ⟨u.sink.id, rfl, ?_⟩
  rw [Batch.ids, sinksAt, List.map_append]
  exact hblocked.not_nodup

theorem addSinks_error {problem : Problem} (h : g.addSinks.result = .error problem) :
    ∃ id, problem = .idInUse id ∧ ¬ (g.ids ++ g.sinkPlan.ids).Nodup := by
  simp only [addSinks] at h
  split at h
  · rename_i left failed ha
    cases h
    exact attachSinks_some ha
  · cases h

theorem addSinks_of_none (h : g.unconsumedPorts = []) : g.addSinks = ⟨g, .ok {}⟩ := by
  simp only [addSinks, h, attachSinks, List.length_nil]

theorem map_port_unusedPorts (g : Graph) (n : Node) (side : Side) (scope : Option NodeId) :
    (g.unusedPorts n side scope).map Unconsumed.port =
      (n.portsOn side).filter (fun p => g.outDegree p = 0) := by
  rw [unusedPorts, Node.portsOn, Table.keys, List.map_map, List.map_map, List.filter_map]
  rfl

theorem mem_unusedPorts {side : Side} {scope : Option NodeId} :
    p ∈ (g.unusedPorts n side scope).map Unconsumed.port ↔
      p ∈ n.portsOn side ∧ g.outDegree p = 0 := by
  rw [map_port_unusedPorts, List.mem_filter, decide_eq_true_eq]

theorem scope_of_mem_unusedPorts {side : Side} {scope : Option NodeId}
    (h : u ∈ g.unusedPorts n side scope) : u.scope = scope := by
  obtain ⟨_, _, rfl⟩ := List.mem_map.mp h
  rfl

/-- The outputs of a node that need a sink. -/
def undrainedOutputs (g : Graph) (n : Node) : List Unconsumed :=
  if g.insideLambda n then [] else g.unusedPorts n .output none

/-- The inputs of a node that need a sink inside of it. -/
def undrainedInputs (g : Graph) (n : Node) : List Unconsumed :=
  if n.kind.hasInside then g.unusedPorts n .input (some n.id) else []

theorem unconsumedAt_eq (g : Graph) (n : Node) :
    g.unconsumedAt n = g.undrainedOutputs n ++ (g.undrainedInputs n).filter
      (fun u => !(g.undrainedOutputs n).any (fun v => v.port = u.port)) :=
  rfl

theorem undrainedOutputs_subset (g : Graph) (n : Node) :
    g.undrainedOutputs n ⊆ g.unusedPorts n .output none := by
  rw [undrainedOutputs]
  split
  · exact List.nil_subset _
  · exact List.Subset.refl _

theorem undrainedInputs_subset (g : Graph) (n : Node) :
    g.undrainedInputs n ⊆ g.unusedPorts n .input (some n.id) := by
  rw [undrainedInputs]
  split
  · exact List.Subset.refl _
  · exact List.nil_subset _

/-- The sink of an unconsumed port belongs to the side on which the port is unused. -/
theorem mem_unusedPorts_of_mem_unconsumedAt (h : u ∈ g.unconsumedAt n) :
    u ∈ g.unusedPorts n .output none ∨ u ∈ g.unusedPorts n .input (some n.id) := by
  rw [unconsumedAt_eq, List.mem_append, List.mem_filter] at h
  rcases h with hu | ⟨hu, _⟩
  · exact .inl (undrainedOutputs_subset g n hu)
  · exact .inr (undrainedInputs_subset g n hu)

theorem mem_undrainedOutputs : p ∈ (g.undrainedOutputs n).map Unconsumed.port ↔
    g.insideLambda n = false ∧ p ∈ n.portsOn .output ∧ g.outDegree p = 0 := by
  cases hl : g.insideLambda n with
  | true => simp [undrainedOutputs, hl]
  | false =>
    simp only [undrainedOutputs, hl, Bool.false_eq_true, if_false, mem_unusedPorts, true_and]

theorem mem_undrainedInputs : p ∈ (g.undrainedInputs n).map Unconsumed.port ↔
    n.kind.hasInside = true ∧ p ∈ n.portsOn .input ∧ g.outDegree p = 0 := by
  cases hi : n.kind.hasInside with
  | true => simp only [undrainedInputs, hi, if_true, mem_unusedPorts, true_and]
  | false => simp [undrainedInputs, hi]

theorem nodup_undrained (g : Graph) (n : Node) :
    ((g.undrainedOutputs n).map Unconsumed.port).Nodup ∧
      ((g.undrainedInputs n).map Unconsumed.port).Nodup := by
  constructor
  · rw [undrainedOutputs]
    split
    · exact List.nodup_nil
    · rw [map_port_unusedPorts]
      exact (n.nodup_portsOn _).filter _
  · rw [undrainedInputs]
    split
    · rw [map_port_unusedPorts]
      exact (n.nodup_portsOn _).filter _
    · exact List.nodup_nil

/-- Which ports of a node need a sink. -/
theorem mem_unconsumedAt : p ∈ (g.unconsumedAt n).map Unconsumed.port ↔ g.outDegree p = 0 ∧
    ((g.insideLambda n = false ∧ p ∈ n.portsOn .output) ∨
      (n.kind.hasInside = true ∧ p ∈ n.portsOn .input)) := by
  have hall : p ∈ (g.unconsumedAt n).map Unconsumed.port ↔
      p ∈ (g.undrainedOutputs n).map Unconsumed.port ∨
        p ∈ (g.undrainedInputs n).map Unconsumed.port := by
    rw [unconsumedAt_eq, List.map_append, List.mem_append]
    constructor
    · intro hall
      rcases hall with h | h
      · exact .inl h
      · obtain ⟨u, hu, rfl⟩ := List.mem_map.mp h
        exact .inr (List.mem_map.mpr ⟨u, (List.mem_filter.mp hu).1, rfl⟩)
    · intro hall
      rcases hall with h | h
      · exact .inl h
      · by_cases ho : p ∈ (g.undrainedOutputs n).map Unconsumed.port
        · exact .inl ho
        · obtain ⟨u, hu, rfl⟩ := List.mem_map.mp h
          refine .inr (List.mem_map.mpr ⟨u, List.mem_filter.mpr ⟨hu, ?_⟩, rfl⟩)
          simpa using ho
  rw [hall, mem_undrainedOutputs, mem_undrainedInputs]
  constructor
  · intro hall
    rcases hall with ⟨hl, hp, hz⟩ | ⟨hi, hp, hz⟩
    · exact ⟨hz, .inl ⟨hl, hp⟩⟩
    · exact ⟨hz, .inr ⟨hi, hp⟩⟩
  · intro hall
    rcases hall with ⟨hz, ⟨hl, hp⟩ | ⟨hi, hp⟩⟩
    · exact .inl ⟨hl, hp, hz⟩
    · exact .inr ⟨hi, hp, hz⟩

theorem node_of_mem_unconsumedAt (h : p ∈ (g.unconsumedAt n).map Unconsumed.port) :
    p.node = n.id := by
  obtain ⟨_, ⟨_, hp⟩ | ⟨_, hp⟩⟩ := mem_unconsumedAt.mp h
  · exact Node.node_of_mem_portsOn hp
  · exact Node.node_of_mem_portsOn hp

theorem nodup_unconsumedAt (g : Graph) (n : Node) :
    ((g.unconsumedAt n).map Unconsumed.port).Nodup := by
  obtain ⟨ho, hi⟩ := nodup_undrained g n
  rw [unconsumedAt_eq, List.map_append]
  refine List.nodup_append.mpr ⟨ho, hi.sublist (List.filter_sublist.map _), ?_⟩
  intro p hp q hq heq
  subst heq
  obtain ⟨u, hu, rfl⟩ := List.mem_map.mp hq
  obtain ⟨v, hv, he⟩ := List.mem_map.mp hp
  have hno := (List.mem_filter.mp hu).2
  simp only [Bool.not_eq_true', List.any_eq_false, decide_eq_true_eq] at hno
  exact hno v hv he

/-- No port is given two sinks. -/
theorem nodup_unconsumedPorts (g : Graph) : (g.unconsumedPorts.map Unconsumed.port).Nodup := by
  rw [unconsumedPorts, List.map_flatMap, List.nodup_flatMap]
  refine ⟨fun n _ => nodup_unconsumedAt g n, ?_⟩
  refine (List.pairwise_map.mp g.nodes.distinct).imp ?_
  intro m n hne p hm hn
  exact hne ((node_of_mem_unconsumedAt hm).symm.trans (node_of_mem_unconsumedAt hn))

theorem mem_unconsumedPorts : p ∈ g.unconsumedPorts.map Unconsumed.port ↔
    ∃ n ∈ g.nodes.toList, p ∈ (g.unconsumedAt n).map Unconsumed.port := by
  rw [unconsumedPorts, List.map_flatMap, List.mem_flatMap]

theorem outDegree_of_mem_unconsumedPorts (h : p ∈ g.unconsumedPorts.map Unconsumed.port) :
    g.outDegree p = 0 := by
  obtain ⟨n, _, hp⟩ := mem_unconsumedPorts.mp h
  exact (mem_unconsumedAt.mp hp).1

theorem declares_of_mem_unconsumedPorts (h : p ∈ g.unconsumedPorts.map Unconsumed.port) :
    g.Declares p := by
  obtain ⟨n, hn, hp⟩ := mem_unconsumedPorts.mp h
  obtain ⟨_, ⟨_, hp⟩ | ⟨_, hp⟩⟩ := mem_unconsumedAt.mp hp
  · exact declares_of_mem_portsOn (node?_of_mem hn) hp
  · exact declares_of_mem_portsOn (node?_of_mem hn) hp

/-- A sink is put at the top level or into a node of the graph. -/
theorem contains_scope_unconsumedPorts (h : u ∈ g.unconsumedPorts) {q : NodeId}
    (hq : u.scope = some q) : g.contains q = true := by
  obtain ⟨n, hn, hu⟩ := List.mem_flatMap.mp h
  rcases mem_unusedPorts_of_mem_unconsumedAt hu with hu | hu
  · rw [scope_of_mem_unusedPorts hu] at hq
    cases hq
  · rw [scope_of_mem_unusedPorts hu] at hq
    cases hq
    exact contains_iff.mpr ⟨n, hn, rfl⟩

theorem isContinuation_of_mem_sinkPlan (h : e ∈ g.sinkPlan.edges) : e.isContinuation = false := by
  obtain ⟨u, _, rfl⟩ := List.mem_map.mp h
  rfl

theorem touches_of_mem_sinkPlan (h : e ∈ g.sinkPlan.edges) :
    e.target.node ∈ g.sinkPlan.ids := by
  obtain ⟨u, hu, rfl⟩ := List.mem_map.mp h
  exact List.mem_map.mpr ⟨u.sink, List.mem_map.mpr ⟨u, hu, rfl⟩, rfl⟩

theorem source_of_mem_sinkPlan (h : e ∈ g.sinkPlan.edges) :
    e.source ∈ g.unconsumedPorts.map Unconsumed.port := by
  obtain ⟨u, hu, rfl⟩ := List.mem_map.mp h
  exact List.mem_map.mpr ⟨u, hu, rfl⟩

theorem sources_sinkPlan (g : Graph) :
    g.sinkPlan.edges.map Edge.source = g.unconsumedPorts.map Unconsumed.port := by
  rw [sinkPlan, sinksAt, List.map_map]
  rfl

theorem targets_sinkPlan (g : Graph) : g.sinkPlan.edges.map Edge.target =
    g.sinkPlan.nodes.flatMap (fun n => n.portsOn .input) := by
  rw [sinkPlan, sinksAt, List.map_map, List.flatMap_map]
  exact List.map_eq_flatMap

/-- Adding sinks to a well-formed graph gives a well-formed graph. -/
theorem wellFormed_addSinks (hg : g.WellFormed) {c : Change} (h : g.addSinks.result = .ok c) :
    g.addSinks.graph.WellFormed := by
  have hrevision := revision_addSinks h
  refine hrevision.wellFormed hg ?_ ?_
  · intro n hn q hq
    obtain ⟨u, hu, rfl⟩ := List.mem_map.mp hn
    rw [Unconsumed.sink, Synthesis.parent?_sink] at hq
    exact contains_scope_unconsumedPorts hu hq
  · intro e he
    refine ⟨hrevision.declares (declares_of_mem_unconsumedPorts (source_of_mem_sinkPlan he)), ?_⟩
    have ht : e.target ∈ g.sinkPlan.edges.map Edge.target := List.mem_map.mpr ⟨e, he, rfl⟩
    rw [targets_sinkPlan] at ht
    obtain ⟨n, hn, hp⟩ := List.mem_flatMap.mp ht
    exact hrevision.declares_of_mem_portsOn hn hp

/-- An edge to a sink is never a self-loop. -/
theorem not_isSelfLoop_of_mem_sinkPlan {c : Change} (h : g.addSinks.result = .ok c)
    (he : e ∈ g.sinkPlan.edges) : e.isSelfLoop = false := by
  have hs := declares_of_mem_unconsumedPorts (source_of_mem_sinkPlan he)
  obtain ⟨n, hn, ht⟩ := List.mem_map.mp (touches_of_mem_sinkPlan he)
  refine decide_eq_false fun heq => (revision_addSinks h).fresh hn ?_
  rw [ht, ← heq]
  exact hs.contains

/-- Every port has been drained, and the sinks themselves have nothing to drain. -/
theorem unconsumedPorts_addSinks {c : Change} (h : g.addSinks.result = .ok c) :
    g.addSinks.graph.unconsumedPorts = [] := by
  have hrevision := revision_addSinks h
  have hsinks : ∀ m ∈ g.sinkPlan.nodes, m.kind = ⟨true, false, false⟩ := by
    intro m hm
    obtain ⟨u, _, rfl⟩ := List.mem_map.mp hm
    exact Synthesis.kind_sink _ _ _
  have hlambda : ∀ m ∈ g.sinkPlan.nodes, m.kind.lambda = false := fun m hm => by rw [hsinks m hm]
  rw [← List.map_eq_nil_iff (f := Unconsumed.port), List.eq_nil_iff_forall_not_mem]
  intro p hp
  obtain ⟨n, hn, hp⟩ := mem_unconsumedPorts.mp hp
  obtain ⟨hz, hside⟩ := mem_unconsumedAt.mp hp
  rw [outDegree_eq_zero] at hz
  rcases hrevision.mem_nodes_iff.mp hn with hold | hnew
  · rw [hrevision.insideLambda_eq_of_kind hlambda] at hside
    have hz' : g.outDegree p = 0 :=
      outDegree_eq_zero.mpr fun e he => hz e (hrevision.mem_edges_iff.mpr (.inl ⟨he, rfl⟩))
    have hm := mem_unconsumedPorts.mpr ⟨n, hold, mem_unconsumedAt.mpr ⟨hz', hside⟩⟩
    rw [← sources_sinkPlan] at hm
    obtain ⟨e, he, hs⟩ := List.mem_map.mp hm
    exact hz e (hrevision.mem_edges_iff.mpr (.inr he)) hs
  · rcases hside with ⟨_, hp⟩ | ⟨hi, _⟩
    · obtain ⟨u, _, rfl⟩ := List.mem_map.mp hnew
      rw [Unconsumed.sink, Synthesis.outputs_sink] at hp
      simp at hp
    · rw [hsinks n hnew] at hi
      cases hi

/-- Only ports without a data edge are given one, so no port becomes shared. -/
theorem nodup_nearEnds_addSinks (hg : g.WellFormed) {c : Change} (h : g.addSinks.result = .ok c)
    (d : Direction) : (g.addSinks.graph.nearEnds d).Nodup ↔ (g.nearEnds d).Nodup := by
  have hrevision := revision_addSinks h
  have hkept : (g.dataEdges.filter (fun _ => true)).map d.near = g.nearEnds d := by
    rw [List.filter_true, map_near_dataEdges]
  rw [hrevision.nearEnds_eq fun e => isContinuation_of_mem_sinkPlan, hkept]
  cases d with
  | outward =>
    refine ⟨fun hall => (List.nodup_append.mp hall).1, fun hold => ?_⟩
    have hnew : g.sinkPlan.edges.map Direction.outward.near =
        g.unconsumedPorts.map Unconsumed.port := sources_sinkPlan g
    rw [hnew]
    refine List.nodup_append.mpr ⟨hold, nodup_unconsumedPorts g, ?_⟩
    intro p hp q hq heq
    subst heq
    obtain ⟨e, he, rfl⟩ := mem_nearEnds_iff_edge.mp hp
    exact outDegree_eq_zero.mp (outDegree_of_mem_unconsumedPorts hq) e (mem_dataEdges.mp he).1 rfl
  | inward =>
    have hnew : g.sinkPlan.edges.map Direction.inward.near =
        g.sinkPlan.nodes.flatMap (fun n => n.portsOn .input) := targets_sinkPlan g
    rw [hnew]
    exact hrevision.nodup_append_ports (fun p hp => hg.contains_nearEnd hp) .input

end Graph
end PortNet
