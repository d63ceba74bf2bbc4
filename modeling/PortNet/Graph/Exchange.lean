import PortNet.Edge.Exchange
import PortNet.Graph.Basic
import PortNet.Node.Exchange

namespace PortNet

/-- Equality up to the order of ports and of members. Two nodes that were given different kinds
differ, whatever their values say. -/
def Node.alike (a b : Node) : Bool := a.kind = b.kind && Json.alike a.toJson b.toJson

def Edge.alike (a b : Edge) : Bool := Json.alike a.toJson b.toJson

namespace Graph
open Json

def toJson (g : Graph) : Json :=
  .obj (("nodes", .arr (g.nodes.toList.map Node.toJson)) ::
    ("edges", .arr (g.edges.map Edge.toJson)) :: g.extras.members)

/-- The members of a graph document before the graph is built from them. -/
structure Entry where
  nodes : List Node := []
  edges : List Edge := []
  extras : Extras fields := .empty

def Entry.recordType : RecordType := ⟨"GraphDocument", fields, []⟩

def Entry.add (e : Entry) (name : String) (doc : Document) : Except LoadError Entry := do
  if name = "nodes" then .ok { e with nodes := ← Decoder.list Node.decode doc }
  else if name = "edges" then .ok { e with edges := ← Decoder.list Edge.decode doc }
  else .ok { e with extras := ← e.extras.decode name doc }

/-- Of two entries with one id the later one is kept, in the place of the earlier one. -/
def Entry.toGraph (e : Entry) : Graph := ⟨.ofList e.nodes, e.edges, e.extras⟩

def decode : Decoder Graph := fun doc => do
  .ok (← Decoder.record Entry.recordType {} Entry.add doc).toGraph

def ofText (text : String) : Except LoadError Graph := decodeText decode text

def ofJson (j : Json) : Except LoadError Graph := decodeJson decode j

/-- The text that stands for the graph: no blanks, and everything in its stored order. -/
def canonicalText (g : Graph) : String := g.toJson.compact

def prettyText (g : Graph) : String := g.toJson.pretty

/-- Equality up to the order of nodes, ports and members. The order of edges counts. -/
def alike (a b : Graph) : Bool :=
  a.nodes.toList.length = b.nodes.toList.length &&
    a.nodes.toList.all (fun n => (b.node? n.id).any n.alike) &&
    a.edges.length = b.edges.length && (a.edges.zip b.edges).all (fun (d, e) => d.alike e) &&
    a.extras.alike b.extras

/-- A listing of nodes and edges for people. -/
def listing (g : Graph) : List String :=
  let node (n : Node) :=
    "  node " ++ n.id ++ " = " ++ n.value.componentName ++ " [" ++ n.kind.text ++ "]" ++
      (match n.parent? with
        | some parent => " in " ++ parent
        | none => "")
  let edge (e : Edge) :=
    "  edge " ++ e.route.text ++ (if e.isContinuation then " (continuation)" else "")
  ("PortGraph (" ++ Nat.repr g.nodes.toList.length ++ " nodes, " ++ Nat.repr g.edges.length ++
    " edges)") :: (g.nodes.toList.map node ++ g.edges.map edge)

end Graph

/-- A text of lines, each closed by a line feed. -/
def Text.ofLines (lines : List String) : String := String.join (lines.map (· ++ "\n"))

def Graph.text (g : Graph) : String := Text.ofLines g.listing

end PortNet
