import PortNet.Edge.Basic
import PortNet.Node.Basic

namespace PortNet

def Graph.fields : List String := ["nodes", "edges"]

/-- A hierarchical dataflow graph. Nodes stand in the order in which their ids first appeared,
edges in the order in which they were added; an end of an edge need not be a node of the graph. -/
structure Graph where
  nodes : Table Node Node.id := .empty
  edges : List Edge := []
  extras : Extras Graph.fields := .empty
deriving DecidableEq, Inhabited

namespace Graph

def empty : Graph := {}

def node? (g : Graph) (id : NodeId) : Option Node := g.nodes.find? id

def contains (g : Graph) (id : NodeId) : Bool := g.nodes.contains id

/-- Adds a node, or puts it in the place of the node that has its id. -/
def insert (g : Graph) (n : Node) : Graph := { g with nodes := g.nodes.insert n }

def push (g : Graph) (e : Edge) : Graph := { g with edges := g.edges ++ [e] }

def dropEdges (g : Graph) (drop : Edge → Bool) : Graph :=
  { g with edges := g.edges.filter (fun e => !drop e) }

def parent? (g : Graph) (id : NodeId) : Option NodeId := (g.node? id).bind Node.parent?

def children (g : Graph) (id : NodeId) : List Node :=
  g.nodes.toList.filter (fun n => n.parent? = some id)

/-- The type of a port of a node, looked up on one side first and then on the other. -/
def portType? (g : Graph) (port : Port) (side : Side) : Option PortType :=
  (g.node? port.node).bind (fun n => n.value.portType? port.name side)

/-- The number of edges that leave a port. -/
def outDegree (g : Graph) (port : Port) : Nat :=
  (g.edges.filter (fun e => e.source = port)).length

end Graph

end PortNet
