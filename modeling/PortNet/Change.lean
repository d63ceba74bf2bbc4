import PortNet.Diagnostic
import PortNet.Graph.Basic

namespace PortNet

/-- What a pass changed, in numbers. -/
structure Change where
  nodesAdded : Nat := 0
  edgesRemoved : Nat := 0
  edgesAdded : Nat := 0
deriving DecidableEq, Repr

def Change.isNone (c : Change) : Bool := c = {}

/-- A graph as a pass leaves it, and either what was changed or what stopped the pass. -/
structure Outcome where
  graph : Graph
  result : Except Problem Change

/-- Nodes and edges to be added together, in their order. -/
structure Batch where
  nodes : List Node := []
  edges : List Edge := []
deriving DecidableEq

namespace Batch

def append (a b : Batch) : Batch := ⟨a.nodes ++ b.nodes, a.edges ++ b.edges⟩

instance : Append Batch := ⟨append⟩

def concat (batches : List Batch) : Batch := batches.foldr append {}

end Batch

namespace Graph

/-- Adds new nodes up to the first one whose id is taken, which is then reported. -/
def addNew (g : Graph) (nodes : List Node) : Graph × Option Problem :=
  let (all, clash) := g.nodes.addUntilTaken nodes
  ({ g with nodes := all }, clash.map (fun n => .idInUse n.id))

/-- The first of some nodes whose id stands in the graph or has been met before. -/
def clash? (g : Graph) (met : List NodeId) : List Node → Option Node
  | [] => none
  | n :: nodes =>
    if g.contains n.id || met.contains n.id then some n else g.clash? (n.id :: met) nodes

/-- Removes the data edges on the given routes, however many edges share one, and adds a batch.
Other edges stay in their order. The ids of the batch are looked at before any edge is removed; a
node that could not be added after that would leave the graph without those edges. -/
def replaceRoutes (g : Graph) (routes : List Route) (batch : Batch) : Outcome :=
  match g.clash? [] batch.nodes with
  | some n => ⟨g, .error (.idInUse n.id)⟩
  | none =>
    let cut := g.dropEdges (fun e => !e.isContinuation && routes.contains e.route)
    match cut.addNew batch.nodes with
    | (left, some problem) => ⟨left, .error problem⟩
    | (extended, none) =>
      ⟨{ extended with edges := extended.edges ++ batch.edges },
        .ok ⟨batch.nodes.length, g.edges.length - cut.edges.length, batch.edges.length⟩⟩

end Graph
end PortNet
