import PortNet.Change
import PortNet.Distinct
import PortNet.Synthesis

namespace PortNet

/-- An identity node in the place of a self-loop, and the two edges through it. -/
structure Bridge where
  node : Node
  edgeIn : Edge
  edgeOut : Edge

namespace Graph

def selfLoops (g : Graph) : List Edge := g.edges.filter Edge.isSelfLoop

/-- The type of the port of a looping node, on the given side alone. -/
def loopType (g : Graph) (port : Port) (side : Side) : Except Problem PortType :=
  match (g.node? port.node).bind (fun n => Dictionary.get? (n.value.ports side) port.name) with
  | some type => .ok type
  | none => .error (.undeclaredLoop port side)

/-- A self-loop leads from an input of its node to an output. Seen from inside the bridge takes the
type of that output in, and gives the type of that input out. -/
def bridge (g : Graph) (loop : Route) : Except Problem Bridge := do
  let input ← g.loopType loop.target .output
  let output ← g.loopType loop.source .input
  let id := Synthesis.bridgeId loop
  let entry : Port := ⟨id, "input"⟩
  let exit : Port := ⟨id, "output"⟩
  .ok {
    node := Synthesis.bridge id input output loop.source.node
    edgeIn := (Edge.between loop.source entry).named (Synthesis.edgeName loop.source entry)
    edgeOut := (Edge.between exit loop.target).named (Synthesis.edgeName exit loop.target) }

/-- Replaces every self-loop by a bridge inside its node; parallel loops share one. When the id of a
bridge is taken the loops are gone already, and the bridges before it stay. -/
def bridgeLoops (g : Graph) : Outcome :=
  match (distinct (g.selfLoops.map Edge.route)).mapM g.bridge with
  | .error problem => ⟨g, .error problem⟩
  | .ok bridges =>
    match (g.dropEdges Edge.isSelfLoop).addNew (bridges.map Bridge.node) with
    | (left, some problem) => ⟨left, .error problem⟩
    | (extended, none) =>
      let edges := bridges.flatMap (fun b => [b.edgeIn, b.edgeOut])
      ⟨{ extended with edges := extended.edges ++ edges },
        .ok ⟨bridges.length, g.selfLoops.length, edges.length⟩⟩

end Graph
end PortNet
