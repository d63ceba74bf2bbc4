import PortNet.Node.Basic

namespace PortNet
open Json

namespace Settings

def toJson (s : Settings) : Json :=
  .obj (optional "argumentOrdering" (s.argumentOrdering.map (fun names => .arr (names.map .str)))
    ++ optional "isGeneric" (s.isGeneric.map .bool)
    ++ optional "genericType" (s.genericType.map PortType.json)
    ++ s.extras.members)

def recordType : RecordType := ⟨"Settings", fields, []⟩

def add (s : Settings) (name : String) (doc : Document) : Except LoadError Settings := do
  if name = "argumentOrdering" then
    .ok { s with argumentOrdering := ← Decoder.nullable (.list .string) doc }
  else if name = "isGeneric" then .ok { s with isGeneric := ← Decoder.nullable .boolean doc }
  else if name = "genericType" then
    .ok { s with genericType := ← Decoder.nullable PortType.decode doc }
  else .ok { s with extras := ← s.extras.decode name doc }

def decode : Decoder Settings := .record recordType {} add

end Settings

namespace NodeValue

def toJson (v : NodeValue) : Json :=
  .obj (optional "id" (v.component.map .str)
    ++ optional "version" (v.version.map .str)
    ++ optional "inputPorts" (v.inputs.map PortMap.toJson)
    ++ optional "outputPorts" (v.outputs.map PortMap.toJson)
    ++ optional "atomic" (v.atomic.map .bool)
    ++ optional "recursive" (v.recursive.map .bool)
    ++ optional "specialForm" (v.specialForm.map .bool)
    ++ optional "settings" (v.settings.map Settings.toJson)
    ++ v.extras.members)

def recordType : RecordType := ⟨"NodeValue", fields, []⟩

def add (v : NodeValue) (name : String) (doc : Document) : Except LoadError NodeValue := do
  if name = "id" then .ok { v with component := ← Decoder.nullable .string doc }
  else if name = "version" then .ok { v with version := ← Decoder.nullable .string doc }
  else if name = "inputPorts" then
    .ok { v with inputs := ← Decoder.nullable (.dictionary PortType.decode) doc }
  else if name = "outputPorts" then
    .ok { v with outputs := ← Decoder.nullable (.dictionary PortType.decode) doc }
  else if name = "atomic" then .ok { v with atomic := ← Decoder.nullable .boolean doc }
  else if name = "recursive" then .ok { v with recursive := ← Decoder.nullable .boolean doc }
  else if name = "specialForm" then .ok { v with specialForm := ← Decoder.nullable .boolean doc }
  else if name = "settings" then
    .ok { v with settings := ← Decoder.nullable Settings.decode doc }
  else .ok { v with extras := ← v.extras.decode name doc }

def decode : Decoder NodeValue := .record recordType {} add

end NodeValue

namespace Placement

/-- The value written for the parent: none for an unstated one, null for the top level. -/
def toJson? : Placement → Option Json
  | unstated => none
  | topLevel => some .null
  | inside parent => some (.str parent)

def decode : Decoder Placement := fun doc => do
  match ← Decoder.nullable .string doc with
  | none => .ok topLevel
  | some parent => .ok (inside parent)

end Placement

namespace Node

def toJson (n : Node) : Json :=
  .obj (("id", .str n.id) :: ("value", n.value.toJson) :: optional "parent" n.placement.toJson?
    ++ n.extras.members)

/-- The members of a node entry before the node is built from them. -/
structure Entry where
  id : NodeId := ""
  value : NodeValue := {}
  placement : Placement := .unstated
  extras : Extras fields := .empty

def Entry.recordType : RecordType := ⟨"NodeEntry", fields, ["id"]⟩

def Entry.add (e : Entry) (name : String) (doc : Document) : Except LoadError Entry := do
  if name = "id" then .ok { e with id := ← Decoder.string doc }
  else if name = "value" then .ok { e with value := ← NodeValue.decode doc }
  else if name = "parent" then .ok { e with placement := ← Placement.decode doc }
  else .ok { e with extras := ← e.extras.decode name doc }

def decode : Decoder Node := fun doc => do
  let e ← Decoder.record Entry.recordType {} Entry.add doc
  .ok (build e.id e.value e.placement e.extras)

end Node
end PortNet
