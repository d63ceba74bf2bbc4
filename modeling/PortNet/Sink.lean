import PortNet.Change
import PortNet.Synthesis

namespace PortNet

/-- A port that no edge leaves and that needs a sink, and the scope of that sink. -/
structure Unconsumed where
  port : Port
  type : PortType
  scope : Option NodeId
deriving DecidableEq

namespace Graph

/-- The outputs of the children of a lambda are bound where it is called. -/
def insideLambda (g : Graph) (n : Node) : Bool :=
  (n.parent?.bind g.node?).any (fun parent => parent.kind.lambda)

/-- The ports of one side of a node that no edge leaves. -/
def unusedPorts (g : Graph) (n : Node) (side : Side) (scope : Option NodeId) : List Unconsumed :=
  ((n.value.ports side).toList.filter (fun (name, _) => g.outDegree ⟨n.id, name⟩ = 0)).map
    (fun (name, type) => ⟨⟨n.id, name⟩, type, scope⟩)

/-- Outputs drain into the surrounding top level, inputs of a node with an inside into that node. A
name that stands on both sides is drained once, as an output. -/
def unconsumedAt (g : Graph) (n : Node) : List Unconsumed :=
  let outputs := if g.insideLambda n then [] else g.unusedPorts n .output none
  let inputs := if n.kind.hasInside then g.unusedPorts n .input (some n.id) else []
  outputs ++ inputs.filter (fun u => !outputs.any (fun v => v.port = u.port))

/-- The ports that lack a sink, node by node. -/
def unconsumedPorts (g : Graph) : List Unconsumed := g.nodes.toList.flatMap g.unconsumedAt

end Graph

namespace Unconsumed

def sinkPort (u : Unconsumed) : Port := ⟨Synthesis.sinkId u.port, "all"⟩

def sink (u : Unconsumed) : Node := Synthesis.sink u.sinkPort.node u.type u.scope

def edge (u : Unconsumed) : Edge :=
  (Edge.between u.port u.sinkPort).named (Synthesis.edgeName u.port u.sinkPort)

end Unconsumed

namespace Graph

/-- Attaches sinks one by one, up to the first one whose id is taken. -/
def attachSinks (g : Graph) : List Unconsumed → Graph × Option Problem
  | [] => (g, none)
  | u :: us =>
    match g.addNew [u.sink] with
    | (_, some problem) => (g, some problem)
    | (extended, none) => (extended.push u.edge).attachSinks us

/-- Gives every unconsumed port a sink. Those attached before a failure stay. -/
def addSinks (g : Graph) : Outcome :=
  let ports := g.unconsumedPorts
  match g.attachSinks ports with
  | (left, some problem) => ⟨left, .error problem⟩
  | (drained, none) => ⟨drained, .ok ⟨ports.length, 0, ports.length⟩⟩

end Graph
end PortNet
