import PortNet.Fan.Bundle
import PortNet.Fan.Tree

namespace PortNet

namespace Graph

/-- The scope for a tree at a port of `anchor` whose last peer is on `last`: their common scope, or
`last` if it is the scope of the anchor; otherwise the peers live inside the anchor. -/
def fanScope (g : Graph) (anchor last : NodeId) : Except Problem (Option NodeId) :=
  match [anchor, last].find? (fun id => !g.contains id) with
  | some id => .error (.unplaced id)
  | none =>
    if g.parent? anchor = g.parent? last then .ok (g.parent? anchor)
    else if g.parent? anchor = some last then .ok (some last)
    else .ok (some anchor)

def fanRoot (g : Graph) (b : Bundle) : Except Problem FanRoot :=
  match b.type? with
  | none => .error (.untyped b.anchor)
  | some type => do .ok ⟨b.anchor, type, ← g.fanScope b.anchor.node b.lastPeer.node⟩

end Graph

/-- Leaf ports of duplicate trees that are kept back for a join, each with the route of the edge that
it stands in for. -/
abbrev Feeds := List (Route × Port)

namespace Feeds

/-- Replaces the source of every route by the first port that is still kept back for it. A route
without one keeps its own source. -/
def draw (feeds : Feeds) : List Route → List Port
  | [] => []
  | r :: rs =>
    match feeds.find? (fun f => f.1 = r) with
    | some f => f.2 :: draw (feeds.eraseP (fun f => f.1 = r)) rs
    | none => r.source :: draw feeds rs

end Feeds

/-- A duplicate tree without the edges whose routes, taken from the root, are in `taken`. These
edges are kept back as feeds. -/
structure Withheld where
  batch : Batch
  feeds : Feeds

def Batch.withhold (b : Batch) (root : Port) (taken : List Route) : Withheld :=
  let standsFor (e : Edge) : Route := ⟨root, e.target⟩
  let (kept, edges) := b.edges.partition (fun e => taken.contains (standsFor e))
  ⟨{ b with edges }, kept.map (fun e => (standsFor e, e.source))⟩

namespace Graph

/-- The duplicate tree of an outward bundle; leaves that lead to a fanned-in route are held back. -/
def duplicateTree (g : Graph) (fannedIn : List Route) (b : Bundle) : Except Problem Withheld := do
  let tree ← Direction.outward.tree (← g.fanRoot b) b.peers
  .ok (tree.withhold b.anchor fannedIn)

/-- The join tree of an inward bundle over the ports that feed it. -/
def joinTree (g : Graph) (feeds : Feeds) (b : Bundle) : Except Problem Batch := do
  Direction.inward.tree (← g.fanRoot b) (feeds.draw b.routes)

/-- The trees for all bundles of a graph, joins before duplicates. -/
def fanBatch (g : Graph) : Except Problem Batch := do
  let ins := g.bundles .inward
  let duplicates ← (g.bundles .outward).mapM (g.duplicateTree (ins.flatMap Bundle.routes))
  let joins ← ins.mapM (g.joinTree (duplicates.flatMap Withheld.feeds))
  .ok (.concat (joins ++ duplicates.map Withheld.batch))

/-- Replaces every bundle by a tree of two-way nodes. An edge that belongs to two bundles runs
through both trees: the leaf of one feeds the other. -/
def expandFans (g : Graph) : Outcome :=
  match g.fanBatch with
  | .error problem => ⟨g, .error problem⟩
  | .ok batch =>
    g.replaceRoutes ((g.bundles .outward ++ g.bundles .inward).flatMap Bundle.routes) batch

end Graph
end PortNet
