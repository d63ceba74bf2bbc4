import PortNet.Port

namespace PortNet

def Edge.fields : List String := ["source", "target", "value", "continuation", "name"]

def Edge.portFields : List String := ["outPort", "inPort", "continuation"]

/-- An edge between two ports. Both the edge and its port pair can carry the continuation mark and
members of their own. -/
structure Edge where
  source : Port
  target : Port
  pairContinuation : Option Bool := none
  pairExtras : Extras Edge.portFields := .empty
  continuation : Option Bool := none
  name : Option String := none
  extras : Extras Edge.fields := .empty
deriving DecidableEq, Inhabited

namespace Edge

/-- A plain data edge. -/
def between (source target : Port) : Edge := { source, target }

def named (e : Edge) (name : String) : Edge := { e with name := some name }

def asContinuation (e : Edge) : Edge := { e with continuation := some true }

def route (e : Edge) : Route := ⟨e.source, e.target⟩

/-- Continuation edges order computations and carry no data. -/
def isContinuation (e : Edge) : Bool :=
  e.continuation = some true || e.pairContinuation = some true

def isSelfLoop (e : Edge) : Bool := e.source.node = e.target.node

end Edge
end PortNet
