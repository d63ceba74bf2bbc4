import PortNet.SelfLoop
import PortNet.Sink
import PortNet.Fan.Expansion

namespace PortNet

/-- The three steps that bring a graph into canonical form. -/
inductive Pass where
  | expandFans
  | bridgeLoops
  | addSinks
deriving DecidableEq, Repr

namespace Pass

/-- The order in which passes run: bounded fans first, since the later ones ask whether a port has a
successor. -/
def all : List Pass := [expandFans, bridgeLoops, addSinks]

def name : Pass → String
  | expandFans => "resolve_fans"
  | bridgeLoops => "rewrite_boundaries"
  | addSinks => "drain_ports"

/-- The option that turns the pass on. -/
def option : Pass → String
  | expandFans => "createDuplicatesAndJoins"
  | bridgeLoops => "createIdNodes"
  | addSinks => "addConsumeNodes"

/-- What holds when the pass is done. -/
def invariants : Pass → String
  | expandFans => "no port has more than one non-continuation edge per side"
  | bridgeLoops => "no edge has equal source and target node"
  | addSinks => "no unconsumed output (outside lambdas) or unrouted compound input"

def ofName? (name : String) : Option Pass := all.find? (fun p => p.name = name)

def run : Pass → Graph → Outcome
  | expandFans => Graph.expandFans
  | bridgeLoops => Graph.bridgeLoops
  | addSinks => Graph.addSinks

end Pass
end PortNet
