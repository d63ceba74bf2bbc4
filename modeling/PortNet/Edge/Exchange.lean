import PortNet.Edge.Basic

namespace PortNet.Edge
open Json

/-- The port pair of an edge, written apart from the nodes at its ends. -/
structure Pair where
  outPort : PortName := ""
  inPort : PortName := ""
  continuation : Option Bool := none
  extras : Extras portFields := .empty

namespace Pair

def toJson (p : Pair) : Json :=
  .obj (("outPort", .str p.outPort) :: ("inPort", .str p.inPort) ::
    optional "continuation" (p.continuation.map .bool) ++ p.extras.members)

def recordType : RecordType := ⟨"EdgeValue", portFields, ["outPort", "inPort"]⟩

def add (p : Pair) (name : String) (doc : Document) : Except LoadError Pair := do
  if name = "outPort" then .ok { p with outPort := ← Decoder.string doc }
  else if name = "inPort" then .ok { p with inPort := ← Decoder.string doc }
  else if name = "continuation" then
    .ok { p with continuation := ← Decoder.nullable .boolean doc }
  else .ok { p with extras := ← p.extras.decode name doc }

def decode : Decoder Pair := .record recordType {} add

end Pair

def pair (e : Edge) : Pair := ⟨e.source.name, e.target.name, e.pairContinuation, e.pairExtras⟩

def toJson (e : Edge) : Json :=
  .obj (("source", .str e.source.node) :: ("target", .str e.target.node) ::
    ("value", e.pair.toJson) :: optional "continuation" (e.continuation.map .bool)
    ++ optional "name" (e.name.map .str) ++ e.extras.members)

/-- The members of an edge entry before the edge is built from them. -/
structure Entry where
  source : NodeId := ""
  target : NodeId := ""
  pair : Pair := {}
  continuation : Option Bool := none
  name : Option String := none
  extras : Extras fields := .empty

def Entry.recordType : RecordType := ⟨"Edge", fields, ["source", "target", "value"]⟩

def Entry.add (e : Entry) (name : String) (doc : Document) : Except LoadError Entry := do
  if name = "source" then .ok { e with source := ← Decoder.string doc }
  else if name = "target" then .ok { e with target := ← Decoder.string doc }
  else if name = "value" then .ok { e with pair := ← Pair.decode doc }
  else if name = "continuation" then
    .ok { e with continuation := ← Decoder.nullable .boolean doc }
  else if name = "name" then .ok { e with name := ← Decoder.nullable .string doc }
  else .ok { e with extras := ← e.extras.decode name doc }

def Entry.toEdge (e : Entry) : Edge where
  source := ⟨e.source, e.pair.outPort⟩
  target := ⟨e.target, e.pair.inPort⟩
  pairContinuation := e.pair.continuation
  pairExtras := e.pair.extras
  continuation := e.continuation
  name := e.name
  extras := e.extras

def decode : Decoder Edge := fun doc => do
  .ok (← Decoder.record Entry.recordType {} Entry.add doc).toEdge

end PortNet.Edge
