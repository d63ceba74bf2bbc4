import PortNet.Graph.Exchange
import PortNet.Synthesis

namespace PortNet

/-- A node with the nodes drawn inside it. -/
inductive Outline where
  | item (node : Node) (inside : List Outline)

namespace Graph

/-- A node with its children, their children and so on, down to the given depth. -/
def outline (g : Graph) : Nat → Node → Outline
  | 0, n => .item n []
  | depth + 1, n => .item n ((g.children n.id).map (g.outline depth))

def isTopLevel (g : Graph) (n : Node) : Bool := !n.parent?.any g.contains

/-- The nodes that stand in no other node, with everything inside them. No chain of children that
starts at one of these is longer than the list of nodes. -/
def forest (g : Graph) : List Outline :=
  (g.nodes.toList.filter g.isTopLevel).map (g.outline g.nodes.toList.length)

end Graph

namespace Drawing

/-- Quotes and backslashes get a backslash. -/
def escape (s : String) : String :=
  String.ofList (s.toList.flatMap (fun c => if c = '"' ∨ c = '\\' then ['\\', c] else [c]))

def quoted (s : String) : String := "\"" ++ escape s ++ "\""

/-- A name in letters, digits and underscores only. -/
def sanitized (s : String) : String := s.map (fun c => if c.isAlphanum then c else '_')

def clusterName (id : NodeId) : String := "\"cluster_" ++ escape (sanitized id) ++ "\""

/-- Shape and colour of a node: those of its component if it is a synthesized one, otherwise those of
its kind. -/
def look (n : Node) : String × String :=
  let component := n.value.componentName
  if component = Synthesis.duplicateComponent then ("diamond", "lightyellow")
  else if component = Synthesis.joinComponent then ("invtriangle", "lightyellow")
  else if component = Synthesis.bridgeComponent then ("circle", "lightgreen")
  else if component = Synthesis.sinkComponent then ("octagon", "lightsalmon")
  else if n.kind.recursive then ("box3d", "lightblue")
  else if n.kind.atomic then ("box", "lightblue")
  else ("component", "white")

def nodeStatement (n : Node) : String :=
  let (shape, color) := look n
  quoted n.id ++ " [shape=" ++ shape ++ ", style=filled, fillcolor=" ++ color ++ ", label=\"" ++
    escape n.id ++ "\\n" ++ escape n.value.componentName ++ "\"];"

def edgeStatement (e : Edge) : String :=
  quoted e.source.node ++ " -> " ++ quoted e.target.node ++ " [label=\"" ++
    escape e.source.name ++ " → " ++ escape e.target.name ++ "\"" ++
    (if e.isContinuation then ", style=dashed, color=gray50" else "") ++ "];"

/-- The statements that open the cluster of a node and draw the node itself inside it, so that edges
to the node have an end. -/
def clusterHead (n : Node) : List String :=
  ["label=\"" ++ escape n.id ++ "\";", "style=rounded;",
    "color=" ++ (if n.kind.lambda then "purple" else "gray50") ++ ";", nodeStatement n]

def indent (depth : Nat) (line : String) : String :=
  String.ofList (List.replicate (4 * depth) ' ') ++ line

mutual

/-- A node without children is one statement, one with children a cluster around them. -/
def outlineLines (depth : Nat) : Outline → List String
  | .item n [] => [indent depth (nodeStatement n)]
  | .item n (child :: children) =>
    indent depth ("subgraph " ++ clusterName n.id ++ " \x7b") ::
      ((clusterHead n).map (indent (depth + 1)) ++ outlineLines (depth + 1) child ++
        forestLines (depth + 1) children ++ [indent depth "\x7d"])

def forestLines (depth : Nat) : List Outline → List String
  | [] => []
  | o :: os => outlineLines depth o ++ forestLines depth os

end

def graphHead : List String :=
  ["rankdir=LR;", "compound=true;", "node [fontname=\"Helvetica\", fontsize=10];",
    "edge [fontname=\"Helvetica\", fontsize=9];"]

end Drawing

/-- The graph in the language of Graphviz: nested clusters first, then an edge on each line. -/
def Graph.dot (g : Graph) : String :=
  Text.ofLines ("digraph npg \x7b" :: (Drawing.graphHead.map (Drawing.indent 1) ++
    Drawing.forestLines 1 g.forest ++ "" :: (g.edges.map Drawing.edgeStatement).map
      (Drawing.indent 1) ++ ["\x7d"]))

end PortNet
