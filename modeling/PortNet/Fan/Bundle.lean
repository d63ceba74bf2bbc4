import PortNet.Distinct
import PortNet.Graph.Basic
import PortNet.Synthesis

namespace PortNet

/-- All data edges at a port that has at least two of them on one side. The peers are the ports at
their other ends, in the order of the edges. -/
structure Bundle where
  direction : Direction
  anchor : Port
  type? : Option PortType
  peers : List Port
  shared : 2 ≤ peers.length

namespace Bundle

/-- The routes of the edges in the bundle. -/
def routes (b : Bundle) : List Route := b.peers.map (b.direction.route b.anchor)

theorem peers_ne_nil (b : Bundle) : b.peers ≠ [] := by
  intro h
  have := b.shared
  simp [h] at this

def lastPeer (b : Bundle) : Port := b.peers.getLast b.peers_ne_nil

end Bundle

namespace Direction

/-- The end of an edge at which a fan of this direction is shared, and the other one. -/
def near (direction : Direction) (e : Edge) : Port :=
  match direction with
  | outward => e.source
  | inward => e.target

def far (direction : Direction) (e : Edge) : Port :=
  match direction with
  | outward => e.target
  | inward => e.source

end Direction

namespace Graph

/-- The data edges with their near end at a node. -/
def dataEdgesAt (g : Graph) (direction : Direction) (node : NodeId) : List Edge :=
  g.edges.filter (fun e => !e.isContinuation && (direction.near e).node = node)

/-- The bundle at a port, if two or more of the given edges meet there. -/
def bundleAt? (g : Graph) (direction : Direction) (edges : List Edge) (anchor : Port) :
    Option Bundle :=
  let peers := (edges.filter (fun e => direction.near e = anchor)).map direction.far
  if h : 2 ≤ peers.length then
    some ⟨direction, anchor, g.portType? anchor direction.side, peers, h⟩
  else none

/-- The bundles at the ports of a node, in the order in which the ports first appear on edges. -/
def bundlesAt (g : Graph) (direction : Direction) (node : NodeId) : List Bundle :=
  let edges := g.dataEdgesAt direction node
  (distinct (edges.map direction.near)).filterMap (g.bundleAt? direction edges)

/-- All bundles of one direction, node by node. -/
def bundles (g : Graph) (direction : Direction) : List Bundle :=
  g.nodes.toList.flatMap (fun n => g.bundlesAt direction n.id)

end Graph
end PortNet
