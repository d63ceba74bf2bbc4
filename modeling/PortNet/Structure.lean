import PortNet.Diagnostic
import PortNet.Graph.Basic

namespace PortNet

namespace Graph

/-- Whether the walk from parent to parent is still going after `steps` steps. -/
def climbs (g : Graph) : Nat → Option NodeId → Bool
  | _, none => false
  | 0, some _ => true
  | steps + 1, some id => g.climbs steps (g.parent? id)

/-- A walk that ends passes every node at most once and leaves the graph at most once, so a longer
one goes in circles. -/
def climbsForever (g : Graph) (id : NodeId) : Bool :=
  g.climbs g.nodes.toList.length (g.parent? id)

def parentProblem? (g : Graph) (n : Node) : Option Problem :=
  match n.parent?.filter (fun parent => !g.contains parent) with
  | some parent => some (.unknownParent n.id parent)
  | none => if g.climbsForever n.id then some (.ownAncestor n.id) else none

/-- What is wrong with one end of an edge. A port may be declared on either side, since the boundary
of a compound node is crossed in both directions. -/
def endProblem? (g : Graph) (route : Route) (port : Port) : Option Problem :=
  match g.node? port.node with
  | none => some (.unknownEnd route port.node)
  | some n => if n.value.declares port.name then none else some (.undeclaredEnd route port)

def edgeProblems (g : Graph) (e : Edge) : List Problem :=
  [e.source, e.target].filterMap (g.endProblem? e.route)

/-- Everything that keeps a graph from being well formed: parents first, then edges. -/
def structuralProblems (g : Graph) : List Problem :=
  g.nodes.toList.filterMap g.parentProblem? ++ g.edges.flatMap g.edgeProblems

end Graph

/-- A judgement on which graphs may be normalized, with the reasons it gives. -/
structure Validator where
  accepts : Graph → Bool
  problems : Graph → List Problem

namespace Validator

/-- Accepts the graphs whose edges join declared ports and whose parents form a forest. -/
def structural : Validator where
  accepts g := g.structuralProblems.isEmpty
  problems := Graph.structuralProblems

/-- A bare verdict gives no reasons. -/
def verdict (accepts : Graph → Bool) : Validator where
  accepts := accepts
  problems _ := []

end Validator
end PortNet
