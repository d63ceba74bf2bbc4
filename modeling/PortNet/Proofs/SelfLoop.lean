import Mathlib.Data.List.Perm.Basic
import PortNet.Proofs.Fan.Detection
import PortNet.SelfLoop

namespace PortNet

namespace Bridge

def edges (b : Bridge) : List Edge := [b.edgeIn, b.edgeOut]

end Bridge

namespace Graph

/-- The routes of the self-loops, each once. -/
def loops (g : Graph) : List Route := distinct (g.selfLoops.map Edge.route)

def looping (g : Graph) (p : Port) (side : Side) : PortType :=
  (g.loopType p side).toOption.getD default

/-- The bridge for a self-loop whose ports have types. -/
def bridgeAt (g : Graph) (r : Route) : Bridge where
  node := Synthesis.bridge (Synthesis.bridgeId r) (g.looping r.target .output)
    (g.looping r.source .input) r.source.node
  edgeIn := (Edge.between r.source ⟨Synthesis.bridgeId r, "input"⟩).named
    (Synthesis.edgeName r.source ⟨Synthesis.bridgeId r, "input"⟩)
  edgeOut := (Edge.between ⟨Synthesis.bridgeId r, "output"⟩ r.target).named
    (Synthesis.edgeName ⟨Synthesis.bridgeId r, "output"⟩ r.target)

/-- What a successful run adds, as a function of the graph alone. -/
def bridgePlan (g : Graph) : Batch :=
  ⟨g.loops.map (fun r => (g.bridgeAt r).node), g.loops.flatMap (fun r => (g.bridgeAt r).edges)⟩

variable {g : Graph} {r : Route} {d : Direction} {p : Port} {e : Edge}

theorem ids_bridgePlan (g : Graph) : g.bridgePlan.ids = g.loops.map Synthesis.bridgeId := by
  rw [Batch.ids, bridgePlan, List.map_map]
  rfl

theorem mem_selfLoops : e ∈ g.selfLoops ↔ e ∈ g.edges ∧ e.isSelfLoop = true := List.mem_filter

theorem mem_loops : r ∈ g.loops ↔ ∃ e ∈ g.selfLoops, e.route = r :=
  mem_distinct.trans List.mem_map

theorem bridgeAt_eq {b : Bridge} (h : g.bridge r = .ok b) : b = g.bridgeAt r := by
  obtain ⟨input, hi, h⟩ := bind_eq_ok.mp h
  obtain ⟨output, ho, h⟩ := bind_eq_ok.mp h
  cases h
  rw [bridgeAt, looping, looping, hi, ho]
  rfl

theorem eq_bridgePlan_of_mapM {bridges : List Bridge} (h : g.loops.mapM g.bridge = .ok bridges) :
    bridges.map Bridge.node = g.bridgePlan.nodes ∧
      bridges.flatMap Bridge.edges = g.bridgePlan.edges := by
  rw [eq_map_of_mapM h fun _ _ _ hr => bridgeAt_eq hr, List.map_map, List.flatMap_map]
  exact ⟨rfl, rfl⟩

/-- Bridging takes all self-loops out and adds one bridge for each of their routes. -/
theorem revision_bridgeLoops {c : Change} (h : g.bridgeLoops.result = .ok c) :
    Revision g g.bridgeLoops.graph (fun e => !e.isSelfLoop) g.bridgePlan := by
  unfold bridgeLoops at h ⊢
  split at h
  · cases h
  · rename_i bridges hb
    obtain ⟨hnodes, hedges⟩ := eq_bridgePlan_of_mapM hb
    split at h
    · cases h
    · rename_i extended ha
      obtain ⟨hn, he, hx⟩ := addNew_none ha
      refine ⟨hn.trans (by rw [hnodes]; rfl), ?_, hx⟩
      rw [he, ← hedges]
      rfl

/-- A loop that leads from an input of its node to an output. -/
def PassesThrough (g : Graph) (r : Route) : Prop :=
  ∃ n, g.node? r.source.node = some n ∧ r.source.name ∈ n.inputs.keys ∧
    r.target.name ∈ n.outputs.keys

theorem loopType_eq_ok {side : Side} {type : PortType} : g.loopType p side = .ok type ↔
    ∃ n, g.node? p.node = some n ∧ Dictionary.get? (n.value.ports side) p.name = some type := by
  rw [loopType, ← Option.bind_eq_some_iff]
  split
  · rename_i found hfound
    rw [hfound, Except.ok.injEq, Option.some.injEq]
  · rename_i hnone
    simp [hnone]

theorem exists_loopType_iff {side : Side} : (∃ type, g.loopType p side = .ok type) ↔
    ∃ n, g.node? p.node = some n ∧ p.name ∈ (n.value.ports side).keys := by
  simp only [loopType_eq_ok, ← Table.contains_iff, ← Dictionary.isSome_get?,
    Option.isSome_iff_exists]
  constructor
  · intro hall
    obtain ⟨type, n, hn, ht⟩ := hall
    exact ⟨n, hn, type, ht⟩
  · intro hall
    obtain ⟨n, hn, type, ht⟩ := hall
    exact ⟨type, n, hn, ht⟩

theorem loopType_error {side : Side} {problem : Problem}
    (h : g.loopType p side = .error problem) : problem = .undeclaredLoop p side := by
  rw [loopType] at h
  split at h
  · cases h
  · cases h
    rfl

theorem exists_bridge_iff (h : r.source.node = r.target.node) :
    (∃ b, g.bridge r = .ok b) ↔ g.PassesThrough r := by
  have htypes : (∃ b, g.bridge r = .ok b) ↔ (∃ type, g.loopType r.target .output = .ok type) ∧
      ∃ type, g.loopType r.source .input = .ok type := by
    simp only [bridge, bind_eq_ok]
    constructor
    · intro hall
      obtain ⟨_, input, hi, output, ho, _⟩ := hall
      exact ⟨⟨input, hi⟩, ⟨output, ho⟩⟩
    · intro hall
      obtain ⟨⟨input, hi⟩, ⟨output, ho⟩⟩ := hall
      exact ⟨_, input, hi, output, ho, rfl⟩
  rw [htypes, exists_loopType_iff, exists_loopType_iff, ← h]
  constructor
  · intro hall
    obtain ⟨⟨n, hn, ht⟩, ⟨n', hn', hs⟩⟩ := hall
    rw [hn, Option.some.injEq] at hn'
    exact ⟨n, hn, hn' ▸ hs, ht⟩
  · intro hall
    obtain ⟨n, hn, hs, ht⟩ := hall
    exact ⟨⟨n, hn, ht⟩, ⟨n, hn, hs⟩⟩

theorem bridge_error {problem : Problem} (h : g.bridge r = .error problem) :
    ∃ port side, problem = .undeclaredLoop port side := by
  rcases bind_eq_error.mp h with ht | ⟨_, _, h⟩
  · exact ⟨_, _, loopType_error ht⟩
  · rcases bind_eq_error.mp h with hs | ⟨_, _, h⟩
    · exact ⟨_, _, loopType_error hs⟩
    · cases h

/-- Bridging is stopped by a loop that does not pass through its node, before any id is looked at,
or else by an id. -/
theorem bridgeLoops_error {problem : Problem} (h : g.bridgeLoops.result = .error problem) :
    (∃ r ∈ g.loops, g.bridge r = .error problem) ∨
      ∃ id, problem = .idInUse id ∧ ¬ (g.ids ++ g.bridgePlan.ids).Nodup := by
  unfold bridgeLoops at h
  split at h
  · rename_i failed hfailed
    cases h
    exact .inl (exists_error_of_mapM hfailed)
  · rename_i bridges hb
    split at h
    · rename_i left failed ha
      cases h
      obtain ⟨id, hid, hnodup⟩ := addNew_some ha
      rw [(eq_bridgePlan_of_mapM hb).1] at hnodup
      exact .inr ⟨id, hid, hnodup⟩
    · cases h

/-- A loop that does not pass through its node stops the bridging, whatever else is wrong. -/
theorem bridgeLoops_undeclared (hr : r ∈ g.loops) (hloop : ¬ ∃ b, g.bridge r = .ok b) :
    ∃ port side, g.bridgeLoops.result = .error (.undeclaredLoop port side) := by
  unfold bridgeLoops
  split
  · rename_i failed hfailed
    obtain ⟨_, _, hbridge⟩ := exists_error_of_mapM hfailed
    obtain ⟨port, side, rfl⟩ := bridge_error hbridge
    exact ⟨port, side, rfl⟩
  · rename_i bridges hb
    exact absurd (exists_ok_of_mapM hb r hr) hloop

/-- Without self-loops there is nothing to do. -/
theorem bridgeLoops_of_none (h : g.selfLoops = []) : g.bridgeLoops = ⟨g, .ok {}⟩ := by
  have hall : g.edges.filter (fun e => !e.isSelfLoop) = g.edges := by
    rw [selfLoops, List.filter_eq_nil_iff] at h
    exact List.filter_eq_self.mpr fun e he => by simpa using h e he
  have hdrop : g.dropEdges Edge.isSelfLoop = g := by rw [dropEdges, hall]
  simp only [bridgeLoops, h, List.map_nil, distinct, List.mapM_nil, pure, Except.pure, hdrop,
    addNew, Table.addUntilTaken, Option.map_none, List.flatMap_nil, List.append_nil,
    List.length_nil]

theorem isContinuation_of_mem_bridgePlan (h : e ∈ g.bridgePlan.edges) :
    e.isContinuation = false := by
  obtain ⟨r, _, he⟩ := List.mem_flatMap.mp h
  rcases List.mem_pair.mp he with rfl | rfl
  · rfl
  · rfl

/-- The near ends of the edges of one bridge: that of the loop and that of the bridge itself. -/
theorem perm_near_bridgeAt (g : Graph) (d : Direction) (r : Route) :
    ((g.bridgeAt r).edges.map d.near).Perm
      (d.nearEnd r :: (g.bridgeAt r).node.portsOn d.side) := by
  cases d with
  | outward => exact List.Perm.refl _
  | inward => exact List.Perm.swap _ _ _

/-- The new edges have the near ends of the loops, each loop counted once, and those of the
bridges. -/
theorem perm_near_bridgePlan (g : Graph) (d : Direction) :
    (g.bridgePlan.edges.map d.near).Perm (g.loops.map d.nearEnd ++
      g.bridgePlan.nodes.flatMap (fun n => n.portsOn d.side)) := by
  rw [bridgePlan, List.map_flatMap, List.flatMap_map]
  refine (List.Perm.flatMap_left _ fun r _ => perm_near_bridgeAt g d r).trans ?_
  exact (List.map_append_flatMap_perm _ _ _).symm

/-- A loop route stays at one node, which is a node of the graph. -/
theorem WellFormed.declares_loop (hg : g.WellFormed) (h : r ∈ g.loops) :
    g.Declares r.source ∧ g.Declares r.target ∧ r.source.node = r.target.node := by
  obtain ⟨e, he, rfl⟩ := mem_loops.mp h
  obtain ⟨he, hl⟩ := mem_selfLoops.mp he
  exact ⟨(hg.ends e he).1, (hg.ends e he).2, of_decide_eq_true hl⟩

theorem WellFormed.declares_nearEnd_loop (hg : g.WellFormed) (h : r ∈ g.loops) (d : Direction) :
    g.Declares (d.nearEnd r) := by
  cases d with
  | outward => exact (hg.declares_loop h).1
  | inward => exact (hg.declares_loop h).2.1

theorem near_of_mem_bridgePlan (d : Direction) (h : e ∈ g.bridgePlan.edges) :
    (∃ r ∈ g.loops, d.near e = d.nearEnd r) ∨
      ∃ n ∈ g.bridgePlan.nodes, d.near e ∈ n.portsOn d.side := by
  have hm := (perm_near_bridgePlan g d).mem_iff.mp (List.mem_map.mpr ⟨e, h, rfl⟩)
  rcases List.mem_append.mp hm with hm | hm
  · obtain ⟨r, hr, hend⟩ := List.mem_map.mp hm
    exact .inl ⟨r, hr, hend.symm⟩
  · exact .inr (List.mem_flatMap.mp hm)

/-- Each new edge has exactly one end at a bridge, and the other one at a looping node. -/
theorem ends_of_mem_bridgePlan (h : e ∈ g.bridgePlan.edges) : ∃ r ∈ g.loops,
    (e.source = r.source ∧ e.target.node = (g.bridgeAt r).node.id) ∨
      (e.source.node = (g.bridgeAt r).node.id ∧ e.target = r.target) := by
  obtain ⟨r, hr, he⟩ := List.mem_flatMap.mp h
  rcases List.mem_pair.mp he with rfl | rfl
  · exact ⟨r, hr, .inl ⟨rfl, rfl⟩⟩
  · exact ⟨r, hr, .inr ⟨rfl, rfl⟩⟩

theorem touches_of_mem_bridgePlan (h : e ∈ g.bridgePlan.edges) :
    e.source.node ∈ g.bridgePlan.ids ∨
      e.target.node ∈ g.bridgePlan.ids := by
  obtain ⟨r, hr, ⟨_, ht⟩ | ⟨hs, _⟩⟩ := ends_of_mem_bridgePlan h
  · exact .inr (List.mem_map.mpr ⟨_, List.mem_map.mpr ⟨r, hr, rfl⟩, ht.symm⟩)
  · exact .inl (List.mem_map.mpr ⟨_, List.mem_map.mpr ⟨r, hr, rfl⟩, hs.symm⟩)

/-- Bridging the self-loops of a well-formed graph gives a well-formed graph. -/
theorem wellFormed_bridgeLoops (hg : g.WellFormed) {c : Change}
    (h : g.bridgeLoops.result = .ok c) : g.bridgeLoops.graph.WellFormed := by
  have hrevision := revision_bridgeLoops h
  have hdeclares : ∀ e ∈ g.bridgePlan.edges, ∀ d : Direction,
      g.bridgeLoops.graph.Declares (d.near e) := by
    intro e he d
    rcases near_of_mem_bridgePlan d he with ⟨r, hr, hend⟩ | ⟨n, hn, hp⟩
    · rw [hend]
      exact hrevision.declares (hg.declares_nearEnd_loop hr d)
    · exact hrevision.declares_of_mem_portsOn hn hp
  refine hrevision.wellFormed hg ?_ fun e he => ⟨hdeclares e he .outward, hdeclares e he .inward⟩
  intro n hn q hq
  obtain ⟨r, hr, rfl⟩ := List.mem_map.mp hn
  cases hq
  exact (hg.declares_loop hr).1.contains

/-- No edge of a bridge is a self-loop again. -/
theorem selfLoops_bridgeLoops (hg : g.WellFormed) {c : Change}
    (h : g.bridgeLoops.result = .ok c) : g.bridgeLoops.graph.selfLoops = [] := by
  have hrevision := revision_bridgeLoops h
  apply List.filter_eq_nil_iff.mpr
  intro e he hloop
  have hsame : e.source.node = e.target.node := of_decide_eq_true hloop
  rcases hrevision.mem_edges_iff.mp he with ⟨_, hkeep⟩ | hnew
  · simp [hloop] at hkeep
  · obtain ⟨r, hr, hends⟩ := ends_of_mem_bridgePlan hnew
    have hfresh := hrevision.fresh (List.mem_map.mpr ⟨r, hr, rfl⟩ : (g.bridgeAt r).node ∈ _)
    obtain ⟨hs, ht, _⟩ := hg.declares_loop hr
    rcases hends with ⟨hes, het⟩ | ⟨hes, het⟩
    · rw [← het, ← hsame, hes] at hfresh
      exact hfresh hs.contains
    · rw [← hes, hsame, het] at hfresh
      exact hfresh ht.contains

/-- After bridging, a port is shared if data edges that are no loops and routes of loops, whether
they carried data or not, have met there before. -/
theorem nodup_nearEnds_bridgeLoops (hg : g.WellFormed) {c : Change}
    (h : g.bridgeLoops.result = .ok c) (d : Direction) :
    (g.bridgeLoops.graph.nearEnds d).Nodup ↔
      ((g.dataEdges.filter (fun e => !e.isSelfLoop)).map d.near ++
        g.loops.map d.nearEnd).Nodup := by
  have hrevision := revision_bridgeLoops h
  have hold : ∀ p ∈ (g.dataEdges.filter (fun e => !e.isSelfLoop)).map d.near ++
      g.loops.map d.nearEnd, g.contains p.node = true := by
    intro p hp
    rcases List.mem_append.mp hp with hp | hp
    · obtain ⟨e, he, rfl⟩ := List.mem_map.mp hp
      exact hg.contains_nearEnd (mem_nearEnds_iff_edge.mpr ⟨e, (List.mem_filter.mp he).1, rfl⟩)
    · obtain ⟨r, hr, rfl⟩ := List.mem_map.mp hp
      exact (hg.declares_nearEnd_loop hr d).contains
  rw [hrevision.nearEnds_eq fun e => isContinuation_of_mem_bridgePlan,
    ((perm_near_bridgePlan g d).append_left _).nodup_iff, ← List.append_assoc]
  exact hrevision.nodup_append_ports hold d.side

end Graph
end PortNet
