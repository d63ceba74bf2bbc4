import PortNet.EdgeIndex
import PortNet.Fan.Bundle

namespace PortNet

/-- At the positions of the members that pass a test stand these members, in their order. -/
theorem map_getElem?_positions {α : Type} (xs : List α) (test : α → Bool) :
    ((List.range xs.length).filter (fun i => xs[i]?.any test)).map (fun i => xs[i]?) =
      (xs.filter test).map some := by
  induction xs with
  | nil => rfl
  | cons x xs ih =>
    have hrest : ((List.range xs.length).map Nat.succ).filter
        (fun i => (x :: xs)[i]?.any test) =
        ((List.range xs.length).filter (fun i => xs[i]?.any test)).map Nat.succ := by
      rw [List.filter_map]
      rfl
    rw [List.length_cons, List.range_succ_eq_map, List.filter_cons, hrest]
    by_cases hx : test x = true
    · simp [hx, Function.comp_def, ih]
    · simp [hx, Function.comp_def, ih]

namespace EdgeIndex

/-- The edges with their near end at a node, looked up in an index. -/
def edgesAt (index : EdgeIndex) (g : Graph) : Direction → NodeId → List Edge
  | .outward => index.outEdges g
  | .inward => index.inEdges g

theorem map_positions_build (g : Graph) (test : Route → Bool) :
    ((build g).positions test).map (fun i => g.edges[i]?) =
      (g.edges.filter (fun e => test e.route)).map some := by
  rw [← map_getElem?_positions, positions, build, List.length_map]
  congr 1
  apply List.filter_congr
  intro i _
  rw [List.getElem?_map, Option.any_map]

/-- As long as the graph has not changed, the edges that an index finds are those that a look at all
edges would find. -/
theorem filterMap_positions_build (g : Graph) (test : Route → Bool) :
    ((build g).positions test).filterMap (fun i => g.edges[i]?) =
      g.edges.filter (fun e => test e.route) := by
  have hmap := congrArg (List.filterMap id) (map_positions_build g test)
  rw [List.filterMap_map, List.filterMap_map] at hmap
  exact hmap.trans List.filterMap_some

theorem edgesAt_build (g : Graph) (d : Direction) (node : NodeId) :
    (build g).edgesAt g d node = g.edges.filter (fun e => (d.near e).node = node) := by
  cases d with
  | outward => exact filterMap_positions_build g _
  | inward => exact filterMap_positions_build g _

theorem outDegree_build (g : Graph) (p : Port) : (build g).outDegree p = g.outDegree p := by
  have hlength := congrArg List.length (map_positions_build g (fun r => r.source = p))
  rwa [List.length_map, List.length_map] at hlength

end EdgeIndex
end PortNet
