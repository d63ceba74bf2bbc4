import PortNet.Port

namespace PortNet

/-- The names under which the fields of settings are written. -/
def Settings.fields : List String := ["argumentOrdering", "isGeneric", "genericType"]

/-- The settings of a node that the passes write, and all others. -/
structure Settings where
  argumentOrdering : Option (List PortName) := none
  isGeneric : Option Bool := none
  genericType : Option PortType := none
  extras : Extras Settings.fields := .empty
deriving DecidableEq, Inhabited

def NodeValue.fields : List String :=
  ["id", "version", "inputPorts", "outputPorts", "atomic", "recursive", "specialForm", "settings"]

/-- What a node computes and which ports it has. A field that was not given stays apart from one
that was given empty. -/
structure NodeValue where
  component : Option String := none
  version : Option String := none
  inputs : Option PortMap := none
  outputs : Option PortMap := none
  atomic : Option Bool := none
  recursive : Option Bool := none
  specialForm : Option Bool := none
  settings : Option Settings := none
  extras : Extras NodeValue.fields := .empty
deriving DecidableEq, Inhabited

namespace NodeValue

def componentName (v : NodeValue) : String := v.component.getD ""

def ports (v : NodeValue) : Side → PortMap
  | .input => v.inputs.getD Table.empty
  | .output => v.outputs.getD Table.empty

/-- Declares a port, or gives a declared one another type. -/
def declare (v : NodeValue) (side : Side) (name : PortName) (type : PortType) : NodeValue :=
  match side with
  | .input => { v with inputs := some ((v.ports .input).put name type) }
  | .output => { v with outputs := some ((v.ports .output).put name type) }

def declares (v : NodeValue) (name : PortName) : Bool :=
  (v.ports .input).contains name || (v.ports .output).contains name

/-- The type of a port, looked up on one side first and then on the other. -/
def portType? (v : NodeValue) (name : PortName) (side : Side) : Option PortType :=
  (Dictionary.get? (v.ports side) name).or (Dictionary.get? (v.ports side.opposite) name)

end NodeValue

/-- Component whose children get their outputs bound where it is called. -/
def lambdaComponent : String := "functional/lambda"

/-- How the passes treat a node. The three marks are independent; a node without any of them is a
compound, which its children define. -/
structure NodeKind where
  atomic : Bool
  recursive : Bool
  lambda : Bool
deriving DecidableEq, Repr, Inhabited

namespace NodeKind

def of (v : NodeValue) : NodeKind where
  atomic := v.atomic = some true
  recursive := v.recursive = some true
  lambda := v.componentName = lambdaComponent

/-- Whether the node routes its inputs through children of its own. -/
def hasInside (k : NodeKind) : Bool := !k.atomic && !k.recursive

def text (k : NodeKind) : String :=
  let marks := [(k.lambda, "lambda"), (k.atomic, "atomic"), (k.recursive, "recursive")]
  match (marks.filter Prod.fst).map Prod.snd with
  | [] => "compound"
  | names => "+".intercalate names

end NodeKind

/-- Where a node stands in the hierarchy, and whether the top level was stated in so many words. -/
inductive Placement where
  | unstated
  | topLevel
  | inside (parent : NodeId)
deriving DecidableEq, Repr, Inhabited

namespace Placement

def parent? : Placement → Option NodeId
  | inside parent => some parent
  | _ => none

def of : Option NodeId → Placement
  | some parent => inside parent
  | none => unstated

end Placement

def Node.fields : List String := ["id", "value", "parent"]

/-- A node of a graph. The kind is read off the value once, when the node is built. -/
structure Node where
  id : NodeId
  placement : Placement
  kind : NodeKind
  value : NodeValue
  extras : Extras Node.fields
deriving DecidableEq, Inhabited

namespace Node

def build (id : NodeId) (value : NodeValue) (placement : Placement)
    (extras : Extras Node.fields := .empty) : Node :=
  ⟨id, placement, .of value, value, extras⟩

def parent? (n : Node) : Option NodeId := n.placement.parent?

def inputs (n : Node) : PortMap := n.value.ports .input

def outputs (n : Node) : PortMap := n.value.ports .output

end Node
end PortNet
