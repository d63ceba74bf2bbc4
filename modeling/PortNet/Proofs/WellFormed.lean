import PortNet.Proofs.Revision
import PortNet.Structure

namespace PortNet

namespace Graph

/-- A port that its node declares on one of the two sides. -/
def Declares (g : Graph) (p : Port) : Prop :=
  ∃ n, g.node? p.node = some n ∧ n.value.declares p.name = true

/-- What structural validation promises: edges join declared ports, parents are nodes, and the walk
from any node to its ancestors ends. -/
structure WellFormed (g : Graph) : Prop where
  ends : ∀ e ∈ g.edges, g.Declares e.source ∧ g.Declares e.target
  parents : ∀ n ∈ g.nodes.toList, ∀ p, n.parent? = some p → g.contains p = true
  forest : ∀ n ∈ g.nodes.toList, g.climbsForever n.id = false

variable {g g' : Graph} {p : Port}

theorem Declares.contains (h : g.Declares p) : g.contains p.node = true := by
  obtain ⟨n, hn, _⟩ := h
  exact contains_iff_node?.mpr ⟨n, hn⟩

theorem declares_of_mem_portsOn {n : Node} {side : Side} (hn : g.node? n.id = some n)
    (h : p ∈ n.portsOn side) : g.Declares p := by
  obtain ⟨name, hname, rfl⟩ := List.mem_map.mp h
  refine ⟨n, hn, ?_⟩
  have hc := Table.contains_iff.mpr hname
  cases side with
  | input => simp [NodeValue.declares, hc]
  | output => simp [NodeValue.declares, hc]

/-- A declared port has a type, whichever side is asked first. -/
theorem Declares.exists_portType (h : g.Declares p) (side : Side) :
    ∃ type, g.portType? p side = some type := by
  obtain ⟨n, hn, hd⟩ := h
  have hsome : (n.value.portType? p.name side).isSome = true := by
    cases side with
    | input => simpa [NodeValue.portType?, Side.opposite, NodeValue.declares] using hd
    | output =>
      rw [NodeValue.declares, Bool.or_comm] at hd
      simpa [NodeValue.portType?, Side.opposite] using hd
  rw [portType?, hn]
  exact Option.isSome_iff_exists.mp hsome

theorem endProblem?_eq_none {r : Route} : g.endProblem? r p = none ↔ g.Declares p := by
  cases hn : g.node? p.node with
  | none => simp [endProblem?, Declares, hn]
  | some n => simp [endProblem?, Declares, hn]

theorem edgeProblems_eq_nil {e : Edge} :
    g.edgeProblems e = [] ↔ g.Declares e.source ∧ g.Declares e.target := by
  simp [edgeProblems, endProblem?_eq_none]

theorem parentProblem?_eq_none {n : Node} :
    g.parentProblem? n = none ↔
      (∀ p, n.parent? = some p → g.contains p = true) ∧ g.climbsForever n.id = false := by
  cases hp : n.parent? with
  | none => simp [parentProblem?, hp]
  | some q =>
    cases hc : g.contains q with
    | false => simp [parentProblem?, hp, hc, Option.filter_some]
    | true => simp [parentProblem?, hp, hc, Option.filter_some]

/-- The structural validator accepts exactly the well-formed graphs. -/
theorem accepts_iff : Validator.structural.accepts g = true ↔ g.WellFormed := by
  simp only [Validator.structural, structuralProblems, List.isEmpty_iff, List.append_eq_nil_iff,
    List.filterMap_eq_nil_iff, List.flatMap_eq_nil_iff, parentProblem?_eq_none,
    edgeProblems_eq_nil]
  constructor
  · intro hall
    obtain ⟨hn, he⟩ := hall
    exact ⟨he, fun n hm => (hn n hm).1, fun n hm => (hn n hm).2⟩
  · intro h
    exact ⟨fun n hm => ⟨h.parents n hm, h.forest n hm⟩, h.ends⟩

theorem WellFormed.parent_contains (hg : g.WellFormed) {id q : NodeId}
    (h : g.parent? id = some q) : g.contains q = true := by
  obtain ⟨n, hn, hq⟩ := Option.bind_eq_some_iff.mp h
  exact hg.parents n (node?_eq_some_iff.mp hn).1 q hq

/-- A walk that has ended stays ended. -/
theorem climbs_succ {steps : Nat} {start : Option NodeId} (h : g.climbs steps start = false) :
    g.climbs (steps + 1) start = false := by
  induction steps generalizing start with
  | zero =>
    cases start with
    | none => rfl
    | some id => simp [climbs] at h
  | succ steps ih =>
    cases start with
    | none => rfl
    | some id => exact ih h

theorem climbs_mono {few many : Nat} {start : Option NodeId} (hle : few ≤ many)
    (h : g.climbs few start = false) : g.climbs many start = false := by
  induction hle with
  | refl => exact h
  | step _ ih => exact climbs_succ ih

end Graph

namespace Revision
variable {g g' : Graph} {keep : Edge → Bool} {batch : Batch} {p : Port}

theorem declares (h : Revision g g' keep batch) (hp : g.Declares p) : g'.Declares p := by
  obtain ⟨n, hn, hd⟩ := hp
  refine ⟨n, ?_, hd⟩
  rw [h.node?_of_contains (Graph.contains_iff_node?.mpr ⟨n, hn⟩), hn]

theorem declares_of_mem_portsOn (h : Revision g g' keep batch) {n : Node} (hn : n ∈ batch.nodes)
    {side : Side} (hp : p ∈ n.portsOn side) : g'.Declares p :=
  Graph.declares_of_mem_portsOn (h.node?_of_mem_batch hn) hp

theorem parent?_of_contains (h : Revision g g' keep batch) {id : NodeId}
    (hc : g.contains id = true) : g'.parent? id = g.parent? id := by
  rw [Graph.parent?, h.node?_of_contains hc, Graph.parent?]

/-- Among the old nodes the walk to the ancestors is the old one. -/
theorem climbs_eq (h : Revision g g' keep batch) (hg : g.WellFormed) (steps : Nat)
    {start : Option NodeId} (hs : ∀ id, start = some id → g.contains id = true) :
    g'.climbs steps start = g.climbs steps start := by
  induction steps generalizing start with
  | zero =>
    cases start with
    | none => rfl
    | some id => rfl
  | succ steps ih =>
    cases start with
    | none => rfl
    | some id =>
      rw [Graph.climbs, Graph.climbs, h.parent?_of_contains (hs id rfl)]
      exact ih fun _ hq => hg.parent_contains hq

/-- New nodes stand below old ones, so a walk from a new node is one step longer than an old one,
and the graph has grown by at least that step. -/
theorem wellFormed (h : Revision g g' keep batch) (hg : g.WellFormed)
    (hparents : ∀ n ∈ batch.nodes, ∀ q, n.parent? = some q → g.contains q = true)
    (hends : ∀ e ∈ batch.edges, g'.Declares e.source ∧ g'.Declares e.target) : g'.WellFormed where
  ends e he := by
    rcases h.mem_edges_iff.mp he with ⟨hold, _⟩ | hnew
    · exact ⟨h.declares (hg.ends e hold).1, h.declares (hg.ends e hold).2⟩
    · exact hends e hnew
  parents n hn q hq := by
    rcases h.mem_nodes_iff.mp hn with hold | hnew
    · exact h.contains_of_contains (hg.parents n hold q hq)
    · exact h.contains_of_contains (hparents n hnew q hq)
  forest n hn := by
    have hsize : g'.nodes.toList.length = g.nodes.toList.length + batch.nodes.length := by
      rw [h.nodes, List.length_append]
    rw [Graph.climbsForever]
    rcases h.mem_nodes_iff.mp hn with hold | hnew
    · have hc : g.contains n.id = true := Graph.contains_iff.mpr ⟨n, hold, rfl⟩
      rw [h.parent?_of_contains hc, h.climbs_eq hg _ fun _ hq => hg.parent_contains hq]
      exact Graph.climbs_mono (by omega) (hg.forest n hold)
    · have hp : g'.parent? n.id = n.parent? := by
        rw [Graph.parent?, h.node?_of_mem_batch hnew]
        rfl
      rw [hp, h.climbs_eq hg _ (hparents n hnew)]
      cases hq : n.parent? with
      | none => rw [Graph.climbs]
      | some q =>
        obtain ⟨m, hm, rfl⟩ := Graph.contains_iff.mp (hparents n hnew q hq)
        have hgrown : 0 < batch.nodes.length := List.length_pos_of_mem hnew
        have hstep : g.climbs (g.nodes.toList.length + 1) (some m.id) = false := hg.forest m hm
        exact Graph.climbs_mono (by omega) hstep

end Revision
end PortNet
