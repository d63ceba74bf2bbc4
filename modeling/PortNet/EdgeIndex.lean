import PortNet.Graph.Basic

namespace PortNet

/-- The routes of the edges of a graph by position, as they were when the index was built. -/
structure EdgeIndex where
  routes : List Route

namespace EdgeIndex

def build (g : Graph) : EdgeIndex := ⟨g.edges.map Edge.route⟩

/-- The positions of the routes that satisfy a test. -/
def positions (index : EdgeIndex) (test : Route → Bool) : List Nat :=
  (List.range index.routes.length).filter (fun i => index.routes[i]?.any test)

/-- The edges that now stand where the index saw edges leave the node. Positions that the graph no
longer has are passed over. -/
def outEdges (index : EdgeIndex) (g : Graph) (node : NodeId) : List Edge :=
  (index.positions (fun r => r.source.node = node)).filterMap (fun i => g.edges[i]?)

def inEdges (index : EdgeIndex) (g : Graph) (node : NodeId) : List Edge :=
  (index.positions (fun r => r.target.node = node)).filterMap (fun i => g.edges[i]?)

def outDegree (index : EdgeIndex) (port : Port) : Nat :=
  (index.positions (fun r => r.source = port)).length

end EdgeIndex
end PortNet
