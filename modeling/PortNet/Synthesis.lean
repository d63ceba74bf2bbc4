import PortNet.Edge.Basic
import PortNet.Node.Basic

namespace PortNet

/-- The two ways in which a port can fan: one source feeding many, or many feeding one. -/
inductive Direction where
  | outward
  | inward
deriving DecidableEq, Repr

namespace Direction

def name : Direction → String
  | outward => "out"
  | inward => "in"

/-- The side on which the shared port of a fan is declared in the first place. -/
def side : Direction → Side
  | outward => .output
  | inward => .input

/-- The edge between a port near the root of a fan and one nearer to the leaves. -/
def connect (direction : Direction) (near far : Port) : Edge :=
  match direction with
  | outward => .between near far
  | inward => .between far near

def route (direction : Direction) (near far : Port) : Route := (direction.connect near far).route

/-- The port of a two-way node that faces the root. -/
def trunk : Direction → PortName
  | outward => "in"
  | inward => "to"

/-- The ports of a two-way node that face the leaves, in their order. -/
def branches : Direction → PortName × PortName
  | outward => ("d1", "d2")
  | inward => ("in1", "in2")

end Direction

namespace Synthesis

/-- The id of the two-way node over the leaves `first` to `last` of the fan at `root`. -/
def twoWayId (direction : Direction) (root : Port) (first last : Nat) : NodeId :=
  let mark := match direction with
    | .outward => "_DUPLICATE_"
    | .inward => "_JOIN_"
  root.node ++ "_" ++ root.name ++ mark ++ Nat.repr first ++ "_" ++ Nat.repr last

def edgeName (source target : Port) : String :=
  source.node ++ "@" ++ source.name ++ "_to_" ++ target.node ++ "@" ++ target.name

/-- The id of the bridge that takes the place of a self-loop. -/
def bridgeId (route : Route) : NodeId := "id_" ++ edgeName route.source route.target

/-- The id of the sink at an unconsumed port. -/
def sinkId (port : Port) : NodeId := port.node ++ "_consume_dummy_" ++ port.name

def duplicateComponent : String := "control/duplicate"

def joinComponent : String := "control/join"

def bridgeComponent : String := "std/id"

def sinkComponent : String := "control/consume"

def atomicValue (component version : String) (inputs outputs : List (PortName × PortType))
    (settings : Settings) : NodeValue where
  component := some component
  version := some version
  inputs := some (.ofList inputs)
  outputs := some (.ofList outputs)
  atomic := some true
  settings := some settings

/-- Settings of a two-way node; over a concrete type they mark the node for specialization. -/
def twoWaySettings (ordering : List PortName) (type : PortType) : Settings :=
  match type.concreteName? with
  | some name =>
    { argumentOrdering := some ordering
      isGeneric := some true
      genericType := some (.named name) }
  | none => { argumentOrdering := some ordering }

def duplicate (id : NodeId) (type : PortType) (scope : Option NodeId) : Node :=
  .build id
    (atomicValue duplicateComponent "0.3.0" [("in", type)] [("d1", type), ("d2", type)]
      (twoWaySettings ["in", "d1", "d2"] type))
    (.of scope)

def join (id : NodeId) (type : PortType) (scope : Option NodeId) : Node :=
  .build id
    { atomicValue joinComponent "0.3.0" [("in1", type), ("in2", type)] [("to", type)]
        (twoWaySettings ["in1", "in2", "to"] type) with
      specialForm := some true }
    (.of scope)

/-- The two-way node of a fan: a duplicate or a join. -/
def twoWay : Direction → NodeId → PortType → Option NodeId → Node
  | .outward => duplicate
  | .inward => join

/-- A bridge inside a compound node from one of its ports to another. -/
def bridge (id : NodeId) (input output : PortType) (scope : NodeId) : Node :=
  .build id
    (atomicValue bridgeComponent "0.1.2" [("input", input)] [("output", output)]
      { argumentOrdering := some ["input", "output"] })
    (.inside scope)

def sink (id : NodeId) (type : PortType) (scope : Option NodeId) : Node :=
  .build id
    (atomicValue sinkComponent "0.2.0" [("all", type)] [] { argumentOrdering := some ["all"] })
    (.of scope)

end Synthesis
end PortNet
