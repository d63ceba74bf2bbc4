import Mathlib.Data.List.Forall2
import PortNet.Proofs.EdgeIndex
import PortNet.Proofs.Sink

namespace PortNet

/-- The ports of one side of a node with the scope that their sinks would have. -/
def Node.listed (n : Node) (side : Side) (scope : Option NodeId) : List Unconsumed :=
  (n.value.ports side).toList.map (fun (name, type) => ⟨⟨n.id, name⟩, type, scope⟩)

/-- Puts a port on a list if no edge leaves it and it is not on the list yet. -/
def EdgeIndex.enlist (index : EdgeIndex) (found : List Unconsumed) (u : Unconsumed) :
    List Unconsumed :=
  if index.outDegree u.port = 0 && !found.any (fun v => v.port = u.port) then found ++ [u]
  else found

namespace Graph

/-- Looks for the unconsumed ports of a node in two sweeps, which share the list of the ports that
have been found. -/
def sweepAt (g : Graph) (index : EdgeIndex) (found : List Unconsumed) (n : Node) :
    List Unconsumed :=
  let found :=
    if g.insideLambda n then found else (n.listed .output none).foldl index.enlist found
  if n.kind.hasInside then (n.listed .input (some n.id)).foldl index.enlist found else found

def sweep (g : Graph) (index : EdgeIndex) : List Unconsumed :=
  g.nodes.toList.foldl (g.sweepAt index) []

end Graph

/-- Where no port comes twice, those are enlisted that were not on the list at the beginning. -/
theorem EdgeIndex.foldl_enlist (index : EdgeIndex) {us : List Unconsumed}
    (hnodup : (us.map Unconsumed.port).Nodup) (found : List Unconsumed) :
    us.foldl index.enlist found = found ++ us.filter (fun u =>
      index.outDegree u.port = 0 && !found.any (fun v => v.port = u.port)) := by
  induction us generalizing found with
  | nil => simp
  | cons u us ih =>
    obtain ⟨hu, hus⟩ := List.nodup_cons.mp hnodup
    have hrest : us.filter (fun v => index.outDegree v.port = 0 &&
        !(found ++ [u]).any (fun w => w.port = v.port)) = us.filter (fun v =>
          index.outDegree v.port = 0 && !found.any (fun w => w.port = v.port)) := by
      apply List.filter_congr
      intro v hv
      have hne : u.port ≠ v.port := fun heq => hu (heq ▸ List.mem_map.mpr ⟨v, hv, rfl⟩)
      simp [hne]
    rw [List.foldl_cons, ih hus, enlist, List.filter_cons]
    split
    · rw [hrest, List.append_assoc, List.singleton_append]
    · rfl

namespace Graph
variable {g : Graph} {n : Node} {found : List Unconsumed}

theorem foldl_enlist_listed (g : Graph) (n : Node) (side : Side) (scope : Option NodeId)
    (found : List Unconsumed) : (n.listed side scope).foldl (EdgeIndex.build g).enlist found =
      found ++ (g.unusedPorts n side scope).filter
        (fun u => !found.any (fun v => v.port = u.port)) := by
  have hports : (n.listed side scope).map Unconsumed.port = n.portsOn side := by
    rw [Node.listed, Node.portsOn, Table.keys, List.map_map, List.map_map]
    rfl
  have hunused : g.unusedPorts n side scope =
      (n.listed side scope).filter (fun u => g.outDegree u.port = 0) := by
    rw [unusedPorts, Node.listed, List.filter_map]
    rfl
  rw [EdgeIndex.foldl_enlist _ (hports ▸ n.nodup_portsOn side), hunused, List.filter_filter]
  simp only [EdgeIndex.outDegree_build, Bool.and_comm]

/-- What has been found at other nodes makes no difference. -/
theorem filter_unusedPorts_append (hfound : ∀ v ∈ found, v.port.node ≠ n.id)
    (more : List Unconsumed) (side : Side) (scope : Option NodeId) :
    (g.unusedPorts n side scope).filter (fun u => !(found ++ more).any (fun v => v.port = u.port)) =
      (g.unusedPorts n side scope).filter (fun u => !more.any (fun v => v.port = u.port)) := by
  apply List.filter_congr
  intro u hu
  have hnode := Node.node_of_mem_portsOn (mem_unusedPorts.mp (List.mem_map.mpr ⟨u, hu, rfl⟩)).1
  have hother : found.any (fun v => v.port = u.port) = false := by
    refine List.any_eq_false.mpr fun v hv heq => hfound v hv ?_
    rw [of_decide_eq_true heq, hnode]
  rw [List.any_append, hother, Bool.false_or]

theorem sweepAt_build (hfound : ∀ v ∈ found, v.port.node ≠ n.id) :
    g.sweepAt (EdgeIndex.build g) found n = found ++ g.unconsumedAt n := by
  have houtputs : (if g.insideLambda n then found
      else (n.listed .output none).foldl (EdgeIndex.build g).enlist found) =
        found ++ g.undrainedOutputs n := by
    have hkept := (filter_unusedPorts_append (g := g) hfound [] .output none).trans
      (List.filter_eq_self.mpr fun _ _ => rfl)
    rw [List.append_nil] at hkept
    rw [undrainedOutputs, foldl_enlist_listed, hkept]
    split
    · exact (List.append_nil _).symm
    · rfl
  rw [sweepAt, houtputs, unconsumedAt_eq, undrainedInputs]
  split
  · rw [foldl_enlist_listed, filter_unusedPorts_append hfound, List.append_assoc]
  · rw [List.filter_nil, List.append_nil]

theorem foldl_sweepAt_build {nodes : List Node} (hnodup : (nodes.map Node.id).Nodup)
    (hfound : ∀ v ∈ found, v.port.node ∉ nodes.map Node.id) :
    nodes.foldl (g.sweepAt (EdgeIndex.build g)) found = found ++ nodes.flatMap g.unconsumedAt := by
  induction nodes generalizing found with
  | nil => exact (List.append_nil _).symm
  | cons n nodes ih =>
    obtain ⟨hn, hnodes⟩ := List.nodup_cons.mp hnodup
    have hother : ∀ v ∈ found, v.port.node ≠ n.id := fun v hv heq =>
      hfound v hv (heq ▸ List.mem_cons_self)
    have hrest : ∀ v ∈ found ++ g.unconsumedAt n, v.port.node ∉ nodes.map Node.id := by
      intro v hv
      rcases List.mem_append.mp hv with hv | hv
      · exact fun hmem => hfound v hv (List.mem_cons_of_mem _ hmem)
      · rwa [node_of_mem_unconsumedAt (List.mem_map.mpr ⟨v, hv, rfl⟩)]
    rw [List.foldl_cons, sweepAt_build hother, ih hnodes hrest, List.flatMap_cons,
      List.append_assoc]

/-- The sweeps over all nodes, which look edges up in an index, find the ports that lack a sink. That
they share one list matters only where a node has a name on both sides. -/
theorem sweep_build (g : Graph) : g.sweep (EdgeIndex.build g) = g.unconsumedPorts :=
  foldl_sweepAt_build g.nodes.distinct fun _ hv => absurd hv List.not_mem_nil

/-- An output that leads out of its node, and that no lambda binds. -/
def FreeOutput (g : Graph) (n : Node) (p : Port) : Prop :=
  p ∈ n.portsOn .output ∧
    ¬ ∃ parent ∈ g.nodes.toList, n.parent? = some parent.id ∧ parent.kind.lambda = true

end Graph

/-- An input that its node leads to children of its own. -/
def Node.RoutedInput (n : Node) (p : Port) : Prop :=
  p ∈ n.portsOn .input ∧ n.kind.atomic = false ∧ n.kind.recursive = false

namespace Graph

/-- The list `us` has the ports of a graph that need a sink, and where the sinks belong. A name on
both sides of a node counts as an output first. -/
structure Lacks (g : Graph) (us : List Unconsumed) : Prop where
  once : (us.map Unconsumed.port).Nodup
  listed : ∀ p, p ∈ us.map Unconsumed.port ↔ (∀ e ∈ g.edges, e.source ≠ p) ∧
    ∃ n ∈ g.nodes.toList, g.FreeOutput n p ∨ n.RoutedInput p
  outputs : ∀ u ∈ us, ∀ n ∈ g.nodes.toList, g.FreeOutput n u.port →
    u.scope = none ∧ Dictionary.get? n.outputs u.port.name = some u.type
  inputs : ∀ u ∈ us, ∀ n ∈ g.nodes.toList, ¬ g.FreeOutput n u.port → n.RoutedInput u.port →
    u.scope = some n.id ∧ Dictionary.get? n.inputs u.port.name = some u.type

/-- The node `s` of `g'` is where the values of an unconsumed port go, along the one edge that leaves
the port. -/
structure Consumes (g' : Graph) (u : Unconsumed) (s : Node) : Prop where
  component : s.value.componentName = Synthesis.sinkComponent
  parent : s.parent? = u.scope
  inputs : s.inputs.toList = [("all", u.type)]
  outputs : s.outputs.toList = []
  leaving : (g'.edges.filter (fun e => e.source = u.port)).map Edge.route =
    [⟨u.port, ⟨s.id, "all"⟩⟩]

/-- A graph `g'` is `g` with one sink for each of its unconsumed ports, and nothing else has
changed. -/
structure Drained (g g' : Graph) (us : List Unconsumed) (sinks : List Node) (new : List Edge) :
    Prop where
  nodes : g'.nodes.toList = g.nodes.toList ++ sinks
  extras : g'.extras = g.extras
  edges : g'.edges = g.edges ++ new
  counts : sinks.length = us.length ∧ new.length = us.length
  fresh : ∀ s ∈ sinks, g.contains s.id = false
  apart : (sinks.map Node.id).Nodup
  consumed : List.Forall₂ g'.Consumes us sinks
  others : ∀ p, p ∉ us.map Unconsumed.port →
    g'.edges.filter (fun e => e.source = p) = g.edges.filter (fun e => e.source = p)
  complete : g'.unconsumedPorts = []

variable {g : Graph} {n : Node} {u : Unconsumed} {p : Port} {c : Change}

theorem insideLambda_iff : g.insideLambda n = true ↔
    ∃ parent ∈ g.nodes.toList, n.parent? = some parent.id ∧ parent.kind.lambda = true := by
  rw [insideLambda, Option.any_eq_true]
  constructor
  · rintro ⟨parent, hparent, hl⟩
    obtain ⟨q, hq, hfound⟩ := Option.bind_eq_some_iff.mp hparent
    obtain ⟨hmem, rfl⟩ := node?_eq_some_iff.mp hfound
    exact ⟨parent, hmem, hq, hl⟩
  · rintro ⟨parent, hmem, hq, hl⟩
    exact ⟨parent, Option.bind_eq_some_iff.mpr ⟨_, hq, node?_of_mem hmem⟩, hl⟩

theorem freeOutput_iff : g.FreeOutput n p ↔ g.insideLambda n = false ∧ p ∈ n.portsOn .output := by
  rw [FreeOutput, ← insideLambda_iff, Bool.not_eq_true, and_comm]

theorem routedInput_iff : n.RoutedInput p ↔ n.kind.hasInside = true ∧ p ∈ n.portsOn .input := by
  rw [Node.RoutedInput, NodeKind.hasInside, Bool.and_eq_true, Bool.not_eq_true', Bool.not_eq_true',
    and_comm]

/-- What a port gives is what it was declared to give. -/
theorem get?_of_mem_unusedPorts {side : Side} {scope : Option NodeId}
    (h : u ∈ g.unusedPorts n side scope) :
    Dictionary.get? (n.value.ports side) u.port.name = some u.type := by
  obtain ⟨⟨name, type⟩, hmem, rfl⟩ := List.mem_map.mp h
  have hfind : (n.value.ports side).find? name = some (name, type) :=
    Table.find?_eq_some_iff.mpr ⟨(List.mem_filter.mp hmem).1, rfl⟩
  rw [Dictionary.get?, hfind, Option.map_some]

/-- An unconsumed port counts as an output exactly if it is a free one. -/
theorem side_of_mem_unconsumedAt (h : u ∈ g.unconsumedAt n) :
    (g.FreeOutput n u.port ∧ u ∈ g.unusedPorts n .output none) ∨
      (¬ g.FreeOutput n u.port ∧ u ∈ g.unusedPorts n .input (some n.id)) := by
  have hdegree := (mem_unconsumedAt.mp (List.mem_map.mpr ⟨u, h, rfl⟩)).1
  rw [unconsumedAt_eq, List.mem_append, List.mem_filter] at h
  rcases h with hu | ⟨hu, hnone⟩
  · obtain ⟨hl, hp, _⟩ := mem_undrainedOutputs.mp (List.mem_map.mpr ⟨u, hu, rfl⟩)
    exact .inl ⟨freeOutput_iff.mpr ⟨hl, hp⟩, undrainedOutputs_subset g n hu⟩
  · refine .inr ⟨fun hfree => ?_, undrainedInputs_subset g n hu⟩
    obtain ⟨hl, hp⟩ := freeOutput_iff.mp hfree
    obtain ⟨v, hv, heq⟩ := List.mem_map.mp (mem_undrainedOutputs.mpr ⟨hl, hp, hdegree⟩)
    simp only [Bool.not_eq_true', List.any_eq_false, decide_eq_true_eq] at hnone
    exact hnone v hv heq

/-- An unconsumed port was found at the one node that has it. -/
theorem mem_unconsumedAt_of_mem (hu : u ∈ g.unconsumedPorts) (hn : n ∈ g.nodes.toList)
    (hid : u.port.node = n.id) : u ∈ g.unconsumedAt n := by
  obtain ⟨m, hm, hu⟩ := List.mem_flatMap.mp hu
  have hnode := node_of_mem_unconsumedAt (List.mem_map.mpr ⟨u, hu, rfl⟩)
  obtain rfl := List.inj_on_of_nodup_map g.nodes.distinct hm hn (hnode.symm.trans hid)
  exact hu

theorem lacks_unconsumedPorts (g : Graph) : g.Lacks g.unconsumedPorts where
  once := nodup_unconsumedPorts g
  listed p := by
    rw [mem_unconsumedPorts]
    simp only [mem_unconsumedAt, outDegree_eq_zero, freeOutput_iff, routedInput_iff]
    constructor
    · rintro ⟨n, hn, hused, hside⟩
      exact ⟨hused, n, hn, hside⟩
    · rintro ⟨hused, n, hn, hside⟩
      exact ⟨n, hn, hused, hside⟩
  outputs u hu n hn hfree := by
    have hat := mem_unconsumedAt_of_mem hu hn (Node.node_of_mem_portsOn hfree.1)
    rcases side_of_mem_unconsumedAt hat with ⟨_, hout⟩ | ⟨hbound, _⟩
    · exact ⟨scope_of_mem_unusedPorts hout, get?_of_mem_unusedPorts hout⟩
    · exact absurd hfree hbound
  inputs u hu n hn hbound hrouted := by
    have hat := mem_unconsumedAt_of_mem hu hn (Node.node_of_mem_portsOn hrouted.1)
    rcases side_of_mem_unconsumedAt hat with ⟨hfree, _⟩ | ⟨_, hin⟩
    · exact absurd hfree hbound
    · exact ⟨scope_of_mem_unusedPorts hin, get?_of_mem_unusedPorts hin⟩

section Result
variable (h : g.addSinks.result = .ok c)
include h

/-- What leaves a port when the sinks have been added left it before, or leads to its sink. -/
theorem filter_source_addSinks (p : Port) :
    g.addSinks.graph.edges.filter (fun e => e.source = p) =
      g.edges.filter (fun e => e.source = p) ++
        g.sinkPlan.edges.filter (fun e => e.source = p) := by
  rw [(revision_addSinks h).edges, List.filter_true, List.filter_append]

theorem filter_source_of_not_mem (hp : p ∉ g.unconsumedPorts.map Unconsumed.port) :
    g.addSinks.graph.edges.filter (fun e => e.source = p) =
      g.edges.filter (fun e => e.source = p) := by
  have hnew : g.sinkPlan.edges.filter (fun e => e.source = p) = [] := by
    refine List.filter_eq_nil_iff.mpr fun e he heq => hp ?_
    exact of_decide_eq_true heq ▸ source_of_mem_sinkPlan he
  rw [filter_source_addSinks h, hnew, List.append_nil]

/-- Nothing left an unconsumed port, so that the edge to its sink is the only one. -/
theorem filter_source_of_mem (hu : u ∈ g.unconsumedPorts) :
    g.addSinks.graph.edges.filter (fun e => e.source = u.port) = [u.edge] := by
  have hp : u.port ∈ g.unconsumedPorts.map Unconsumed.port := List.mem_map.mpr ⟨u, hu, rfl⟩
  have hold : g.edges.filter (fun e => e.source = u.port) = [] := by
    refine List.filter_eq_nil_iff.mpr fun e he heq => ?_
    exact outDegree_eq_zero.mp (outDegree_of_mem_unconsumedPorts hp) e he (of_decide_eq_true heq)
  have hsources : (g.sinkPlan.edges.map Edge.source).Nodup := by
    rw [sources_sinkPlan]
    exact nodup_unconsumedPorts g
  have hedge : u.edge ∈ g.sinkPlan.edges := List.mem_map.mpr ⟨u, hu, rfl⟩
  rw [filter_source_addSinks h, hold, List.nil_append]
  exact filter_eq_of_nodup_map hsources hedge

theorem consumes_sink (hu : u ∈ g.unconsumedPorts) : g.addSinks.graph.Consumes u u.sink where
  component := rfl
  parent := Synthesis.parent?_sink _ _ _
  inputs := rfl
  outputs := rfl
  leaving := congrArg (List.map Edge.route) (filter_source_of_mem h hu)

theorem drained_sinkPlan : Drained g g.addSinks.graph g.unconsumedPorts g.sinkPlan.nodes
    g.sinkPlan.edges where
  nodes := (revision_addSinks h).nodes
  extras := (revision_addSinks h).extras
  edges := by rw [(revision_addSinks h).edges, List.filter_true]
  counts := ⟨List.length_map _, List.length_map _⟩
  fresh s hs := Bool.eq_false_iff.mpr ((revision_addSinks h).fresh hs)
  apart := (revision_addSinks h).nodup_batch
  consumed :=
    List.forall₂_map_right_iff.mpr (List.forall₂_same.mpr fun _ hu => consumes_sink h hu)
  others _ hp := filter_source_of_not_mem h hp
  complete := unconsumedPorts_addSinks h

end Result

/-- The count of what was added. -/
theorem change_addSinks (h : g.addSinks.result = .ok c) :
    c = ⟨g.unconsumedPorts.length, 0, g.unconsumedPorts.length⟩ := by
  simp only [addSinks] at h
  split at h
  · cases h
  · exact (Except.ok.inj h).symm

/-- Exactly the ports that no edge leaves and whose values would be lost need a sink, and adding
sinks gives one to each of them and changes nothing else. -/
theorem drained_addSinks (g : Graph) : g.Lacks g.unconsumedPorts ∧
    g.sweep (EdgeIndex.build g) = g.unconsumedPorts ∧ ∀ c, g.addSinks.result = .ok c →
      c = ⟨g.unconsumedPorts.length, 0, g.unconsumedPorts.length⟩ ∧
        ∃ sinks new, Drained g g.addSinks.graph g.unconsumedPorts sinks new :=
  ⟨lacks_unconsumedPorts g, sweep_build g,
    fun _ h => ⟨change_addSinks h, _, _, drained_sinkPlan h⟩⟩

/-- A lambda and some more nodes. Two of them have one name on both sides, the second of these two
inside the lambda, and the parent of the last node is missing. -/
def leaky : Graph where
  nodes := .ofList [
    .build "l" { component := some lambdaComponent
                 inputs := some (.ofList [("a", .named "t")])
                 outputs := some (.ofList [("r", .named "t")]) } .unstated,
    .build "b" { inputs := some (.ofList [("i", .named "t")])
                 outputs := some (.ofList [("o", .named "t")])
                 atomic := some true } (.inside "l"),
    .build "c" { inputs := some (.ofList [("v", .named "t")])
                 outputs := some (.ofList [("v", .named "u")]) } .unstated,
    .build "d" { inputs := some (.ofList [("v", .named "t")])
                 outputs := some (.ofList [("v", .named "u")]) } (.inside "l"),
    .build "e" { inputs := some (.ofList [("i", .named "t")])
                 outputs := some (.ofList [("o", .named "t")])
                 recursive := some true } (.inside "c_consume_dummy_v")]
  edges := [(Edge.between ⟨"l", "r"⟩ ⟨"c", "v"⟩).asContinuation]

/-- The shared name is drained to the top level once, inside of the lambda into its own node; the
output that only a continuation leaves is not drained, and the sink that takes the place of the
missing parent binds nothing. -/
theorem drained_addSinks_leaky : leaky.addSinks.result = .ok ⟨4, 0, 4⟩ ∧
    leaky.unconsumedPorts.map (fun u => (u.port, u.scope)) =
      [(⟨"l", "a"⟩, some "l"), (⟨"c", "v"⟩, none), (⟨"d", "v"⟩, some "d"), (⟨"e", "o"⟩, none)] ∧
    ∃ sinks new, Drained leaky leaky.addSinks.graph leaky.unconsumedPorts sinks new := by
  have hrun : leaky.addSinks.result = .ok ⟨4, 0, 4⟩ := by decide +kernel
  obtain ⟨_, _, hdrained⟩ := drained_addSinks leaky
  exact ⟨hrun, by decide +kernel, (hdrained _ hrun).2⟩

end Graph
end PortNet
