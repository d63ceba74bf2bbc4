import PortNet.Change
import PortNet.Synthesis

namespace PortNet

/-- A binary tree over the peers of a fan. A fork knows the numbers of its first and its last
leaf. -/
inductive FanTree where
  | leaf (peer : Port)
  | fork (first last : Nat) (left right : FanTree)
deriving DecidableEq

/-- The port that a fan tree hangs from, its type, and the scope in which its nodes are put. -/
structure FanRoot where
  port : Port
  type : PortType
  scope : Option NodeId

/-- The same type and scope at a branch of a tree node. -/
def FanRoot.branch (r : FanRoot) (node : NodeId) (name : PortName) : FanRoot :=
  { r with port := ⟨node, name⟩ }

namespace FanTree

/-- The last leaf of the left half when the leaves `first` to `last` are split. -/
def middle (first last : Nat) : Nat := (first + last) / 2

/-- The balanced tree over a list of peers, the first of which is leaf number `first`. There is none
over no peers. -/
def balanced? (first : Nat) : List Port → Option FanTree
  | [] => none
  | [peer] => some (.leaf peer)
  | p :: q :: peers =>
    let all := p :: q :: peers
    let last := first + peers.length + 1
    let left := middle first last - first + 1
    do
      some (.fork first last (← balanced? first (all.take left))
        (← balanced? (first + left) (all.drop left)))
termination_by peers => peers.length
decreasing_by
  all_goals simp only [middle, List.length_take, List.length_drop, List.length_cons]; omega

def leaves : FanTree → List Port
  | leaf peer => [peer]
  | fork _ _ left right => left.leaves ++ right.leaves

/-- The nodes and edges that realise a tree: a node before those of its halves, the edge to the root
after theirs. -/
def batch (direction : Direction) (root : FanRoot) : FanTree → Batch
  | leaf peer => ⟨[], [direction.connect root.port peer]⟩
  | fork first last left right =>
    let id := Synthesis.twoWayId direction root.port first last
    let (one, two) := direction.branches
    let left := left.batch direction (root.branch id one)
    let right := right.batch direction (root.branch id two)
    ⟨Synthesis.twoWay direction id root.type root.scope :: (left.nodes ++ right.nodes),
      left.edges ++ right.edges ++ [direction.connect root.port ⟨id, direction.trunk⟩]⟩

end FanTree

namespace Direction

/-- What is missing at a fan without peers. -/
def noPeers : Direction → Port → Problem
  | outward => .noSuccessors
  | inward => .noPredecessors

/-- Joins a port to all peers through a balanced tree of two-way nodes. -/
def tree (direction : Direction) (root : FanRoot) (peers : List Port) : Except Problem Batch :=
  match FanTree.balanced? 0 peers with
  | some tree => .ok (tree.batch direction root)
  | none => .error (direction.noPeers root.port)

end Direction
end PortNet
