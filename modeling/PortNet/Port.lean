import PortNet.Extras

namespace PortNet

abbrev NodeId := String

abbrev PortName := String

/-- A port of a node. Whether it is an input or an output follows from where it is used. -/
structure Port where
  node : NodeId
  name : PortName
deriving DecidableEq, Repr, Inhabited

def Port.text (p : Port) : String := p.node ++ ":" ++ p.name

/-- From which port to which port an edge leads. -/
structure Route where
  source : Port
  target : Port
deriving DecidableEq, Repr, Inhabited

namespace Route

def text (r : Route) : String := r.source.text ++ " -> " ++ r.target.text

def isLoop (r : Route) : Bool := r.source.node = r.target.node

/-- Source before target and node before name, each in the order of code points. -/
def compare (a b : Route) : Ordering :=
  (Ord.compare a.source.node b.source.node).then
    ((Ord.compare a.source.name b.source.name).then
      ((Ord.compare a.target.node b.target.node).then
        (Ord.compare a.target.name b.target.name)))

def sort (routes : List Route) : List Route :=
  routes.mergeSort (fun a b => (a.compare b).isLE)

end Route

/-- One of the two port maps of a node. -/
inductive Side where
  | input
  | output
deriving DecidableEq, Repr

namespace Side

def opposite : Side → Side
  | input => output
  | output => input

def name : Side → String
  | input => "input"
  | output => "output"

end Side

/-- The type of a port. A text names a type; any other value describes one. -/
structure PortType where
  json : Json
deriving DecidableEq, Inhabited

namespace PortType

def named (name : String) : PortType := ⟨.str name⟩

def name? (t : PortType) : Option String :=
  match t.json with
  | .str name => some name
  | _ => none

/-- Whether `word` stands somewhere in a text. -/
def occurs (word : List Char) : List Char → Bool
  | [] => word.isEmpty
  | c :: cs => word.isPrefixOf (c :: cs) || occurs word cs

/-- A name that mentions `generic` is a placeholder for a type. -/
def isGeneric (t : PortType) : Bool :=
  match t.name? with
  | some name => occurs "generic".toList name.toList
  | none => false

def concreteName? (t : PortType) : Option String :=
  if t.isGeneric then none else t.name?

def text (t : PortType) : String := t.name?.getD t.json.compact

def decode : Json.Decoder PortType := fun doc => do .ok ⟨← Json.Decoder.value doc⟩

end PortType

/-- The ports on one side of a node in the order of their declaration. -/
abbrev PortMap := Dictionary PortType

namespace PortMap

def toJson (ports : PortMap) : Json := .obj (ports.toList.map (fun (name, t) => (name, t.json)))

end PortMap
end PortNet
