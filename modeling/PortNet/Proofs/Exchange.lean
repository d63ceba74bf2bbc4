import PortNet.Graph.Exchange
import PortNet.Proofs.Json.RecordShape

namespace PortNet
open Json

namespace Extras
variable {reserved : List String}

/-- The values of the members fit the depth at which they are written. -/
def Fits (depth : Nat) (e : Extras reserved) : Prop := ∀ m ∈ e.members, m.2.Fits depth

theorem fits_empty (depth : Nat) : (empty : Extras reserved).Fits depth :=
  fun _ hm => absurd hm List.not_mem_nil

end Extras

theorem Json.fits_optional {β : Type} {encode : β → Json} {depth : Nat} {value? : Option β}
    (name : String) (h : ∀ v, value? = some v → (encode v).Fits depth) :
    ∀ m ∈ optional name (value?.map encode), m.2.Fits depth := by
  intro m hm
  cases value? with
  | none => exact absurd hm List.not_mem_nil
  | some v =>
    rw [List.mem_singleton.mp hm]
    exact h v rfl

namespace PortType
variable {t : PortType} {depth : Nat}

theorem decode_json (h : t.json.Fits depth) : decode (.ofJson t.json) = .ok t := by
  rw [decode, Decoder.value_ofJson h.proper]
  rfl

end PortType

namespace Settings

/-- The generic type and the other members fit the depth at which they are written. A null would be
read back as no generic type at all. -/
structure Fits (depth : Nat) (s : Settings) : Prop where
  genericType : ∀ t, s.genericType = some t → t.json ≠ .null ∧ t.json.Fits depth
  extras : s.extras.Fits depth

variable {s : Settings} {depth : Nat}

def shape : RecordShape Settings fields where
  slots s := [("argumentOrdering", s.argumentOrdering.map (fun names => .arr (names.map .str))),
    ("isGeneric", s.isGeneric.map .bool), ("genericType", s.genericType.map PortType.json)]
  extras := extras
  keys_slots _ := rfl
  distinct := by decide

theorem toJson_eq (s : Settings) : s.toJson = shape.toJson s := by
  simp [toJson, RecordShape.toJson, shape]

theorem nodup_keys (s : Settings) : s.toJson.keys.Nodup := by
  rw [toJson_eq]
  exact shape.nodup_keys s

theorem Fits.fits_toJson (h : s.Fits depth) (hdepth : 0 < depth) : s.toJson.Fits (depth + 1) := by
  obtain ⟨depth, rfl⟩ := Nat.exists_eq_succ_of_ne_zero (Nat.ne_of_gt hdepth)
  refine .obj s.nodup_keys ?_
  simp only [List.forall_mem_append]
  refine ⟨⟨⟨fits_optional _ fun names _ => .arr ?_, fits_optional _ fun _ _ => .bool⟩,
    fits_optional _ fun t ht => (h.genericType t ht).2⟩, h.extras⟩
  intro x hx
  obtain ⟨name, _, rfl⟩ := List.mem_map.mp hx
  exact .str

theorem Fits.decode_toJson (h : s.Fits depth) : decode (.ofJson s.toJson) = .ok s := by
  rw [decode, toJson, Decoder.record_ofJson s.nodup_keys (by simp [recordType])]
  simp only [List.append_assoc]
  refine (Decoder.addAll_optional (fun x => { argumentOrdering := x : Settings }) ?_).trans ?_
  · intro names _
    have hnames := Decoder.nullable_ofJson Json.noConfusion
      (Decoder.list_ofJson Decoder.string .str names fun _ _ => rfl)
    simp only [add, if_true, hnames, bind, Except.bind]
  refine (Decoder.addAll_optional (fun x =>
    { argumentOrdering := s.argumentOrdering, isGeneric := x : Settings })
      (fun _ _ => rfl)).trans ?_
  refine (Decoder.addAll_optional (fun x => {
    argumentOrdering := s.argumentOrdering
    isGeneric := s.isGeneric
    genericType := x : Settings }) ?_).trans ?_
  · intro type htype
    obtain ⟨hnull, hfits⟩ := h.genericType type htype
    have htype := Decoder.nullable_ofJson hnull (PortType.decode_json hfits)
    simp [add, htype, bind, Except.bind]
  refine Decoder.addAll_extras (fun x => { s with extras := x }) ?_ h.extras
  intro e name doc hname
  simp only [fields, List.mem_cons, List.not_mem_nil, or_false, not_or] at hname
  simp only [add, hname, if_false]

end Settings

namespace PortMap
variable {m : PortMap} {depth : Nat}

theorem fits_toJson (h : ∀ p ∈ m.toList, p.2.json.Fits depth) : m.toJson.Fits (depth + 1) := by
  refine .obj ?_ ?_
  · rw [List.map_map]
    exact m.distinct
  · intro p hp
    obtain ⟨q, hq, rfl⟩ := List.mem_map.mp hp
    exact h q hq

theorem decode_toJson (h : ∀ p ∈ m.toList, p.2.json.Fits depth) :
    Decoder.nullable (Decoder.dictionary PortType.decode) (.ofJson m.toJson) = .ok (some m) :=
  Decoder.nullable_ofJson Json.noConfusion
    (Decoder.dictionary_ofJson fun p hp => PortType.decode_json (h p hp))

end PortMap

namespace NodeValue

/-- The types and the other members of a value fit the depth at which they are written. -/
structure Fits (depth : Nat) (v : NodeValue) : Prop where
  ports : ∀ side, ∀ p ∈ (v.ports side).toList, p.2.json.Fits depth
  settings : ∀ s, v.settings = some s → s.Fits depth
  extras : v.extras.Fits (depth + 1)

variable {v : NodeValue} {depth : Nat}

def shape : RecordShape NodeValue fields where
  slots v := [("id", v.component.map .str), ("version", v.version.map .str),
    ("inputPorts", v.inputs.map PortMap.toJson), ("outputPorts", v.outputs.map PortMap.toJson),
    ("atomic", v.atomic.map .bool), ("recursive", v.recursive.map .bool),
    ("specialForm", v.specialForm.map .bool), ("settings", v.settings.map Settings.toJson)]
  extras := extras
  keys_slots _ := rfl
  distinct := by decide

theorem toJson_eq (v : NodeValue) : v.toJson = shape.toJson v := by
  simp [toJson, RecordShape.toJson, shape]

theorem nodup_keys (v : NodeValue) : v.toJson.keys.Nodup := by
  rw [toJson_eq]
  exact shape.nodup_keys v

theorem Fits.inputs (h : v.Fits depth) {m : PortMap} (hm : v.inputs = some m) :
    ∀ p ∈ m.toList, p.2.json.Fits depth := by
  have hports := h.ports .input
  rwa [NodeValue.ports, hm] at hports

theorem Fits.outputs (h : v.Fits depth) {m : PortMap} (hm : v.outputs = some m) :
    ∀ p ∈ m.toList, p.2.json.Fits depth := by
  have hports := h.ports .output
  rwa [NodeValue.ports, hm] at hports

theorem Fits.fits_toJson (h : v.Fits depth) (hdepth : 0 < depth) : v.toJson.Fits (depth + 2) := by
  refine .obj v.nodup_keys ?_
  simp only [List.forall_mem_append]
  exact ⟨⟨⟨⟨⟨⟨⟨⟨fits_optional _ fun _ _ => .str, fits_optional _ fun _ _ => .str⟩,
    fits_optional _ fun _ hm => PortMap.fits_toJson (h.inputs hm)⟩,
    fits_optional _ fun _ hm => PortMap.fits_toJson (h.outputs hm)⟩,
    fits_optional _ fun _ _ => .bool⟩, fits_optional _ fun _ _ => .bool⟩,
    fits_optional _ fun _ _ => .bool⟩,
    fits_optional _ fun s hs => (h.settings s hs).fits_toJson hdepth⟩, h.extras⟩

theorem Fits.decode_toJson (h : v.Fits depth) : decode (.ofJson v.toJson) = .ok v := by
  rw [decode, toJson, Decoder.record_ofJson v.nodup_keys (by simp [recordType])]
  simp only [List.append_assoc]
  -- The fields are set in the order in which they are written; those behind are still missing.
  refine (Decoder.addAll_optional (fun x => { component := x : NodeValue })
    (fun _ _ => rfl)).trans ?_
  refine (Decoder.addAll_optional (fun x =>
    { component := v.component, version := x : NodeValue }) (fun _ _ => rfl)).trans ?_
  refine (Decoder.addAll_optional (fun x => {
    component := v.component
    version := v.version
    inputs := x : NodeValue }) ?_).trans ?_
  · intro m hm
    have hread := PortMap.decode_toJson (h.inputs hm)
    simp [add, hread, bind, Except.bind]
  refine (Decoder.addAll_optional (fun x => {
    component := v.component
    version := v.version
    inputs := v.inputs
    outputs := x : NodeValue }) ?_).trans ?_
  · intro m hm
    have hread := PortMap.decode_toJson (h.outputs hm)
    simp [add, hread, bind, Except.bind]
  refine (Decoder.addAll_optional (fun x => {
    component := v.component
    version := v.version
    inputs := v.inputs
    outputs := v.outputs
    atomic := x : NodeValue }) (fun _ _ => rfl)).trans ?_
  refine (Decoder.addAll_optional (fun x => {
    component := v.component
    version := v.version
    inputs := v.inputs
    outputs := v.outputs
    atomic := v.atomic
    recursive := x : NodeValue }) (fun _ _ => rfl)).trans ?_
  refine (Decoder.addAll_optional (fun x =>
    { v with specialForm := x, settings := none, extras := .empty : NodeValue })
      (fun _ _ => rfl)).trans ?_
  refine (Decoder.addAll_optional (fun x =>
    { v with settings := x, extras := .empty : NodeValue }) ?_).trans ?_
  · intro s hs
    have hread := Decoder.nullable_ofJson Json.noConfusion (h.settings s hs).decode_toJson
    simp [add, hread, bind, Except.bind]
  refine Decoder.addAll_extras (fun x => { v with extras := x }) ?_ h.extras
  intro e name doc hname
  simp only [fields, List.mem_cons, List.not_mem_nil, or_false, not_or] at hname
  simp only [add, hname, if_false]

end NodeValue

namespace Node

/-- A node whose kind is the one that its value gives it. -/
structure Fits (depth : Nat) (n : Node) : Prop where
  kind : n.kind = .of n.value
  value : n.value.Fits depth
  extras : n.extras.Fits (depth + 2)

variable {n : Node} {depth : Nat}

theorem fits_placement (p : Placement) :
    ∀ m ∈ optional "parent" p.toJson?, m.2.Fits depth := by
  intro m hm
  cases p with
  | unstated => exact absurd hm List.not_mem_nil
  | topLevel =>
    rw [List.mem_singleton.mp hm]
    exact .null
  | inside parent =>
    rw [List.mem_singleton.mp hm]
    exact .str

def Entry.shape : RecordShape Entry fields where
  slots e := [("id", some (.str e.id)), ("value", some e.value.toJson),
    ("parent", e.placement.toJson?)]
  extras := extras
  keys_slots _ := rfl
  distinct := by decide

/-- The members that are written for a node. -/
def entry (n : Node) : Entry := ⟨n.id, n.value, n.placement, n.extras⟩

theorem toJson_eq (n : Node) : n.toJson = Entry.shape.toJson n.entry := by
  simp [toJson, entry, RecordShape.toJson, Entry.shape, Json.optional]

theorem nodup_keys (n : Node) : n.toJson.keys.Nodup := by
  rw [toJson_eq]
  exact Entry.shape.nodup_keys n.entry

theorem Fits.fits_toJson (h : n.Fits depth) (hdepth : 0 < depth) : n.toJson.Fits (depth + 3) := by
  refine .obj n.nodup_keys ?_
  simp only [List.forall_mem_append, List.forall_mem_cons]
  exact ⟨⟨.str, h.value.fits_toJson hdepth, fits_placement _⟩, h.extras⟩

/-- The three ways of giving a parent are told apart. -/
theorem addAll_placement (e : Entry) (p : Placement) (ms : List (String × Json))
    (h : e.placement = .unstated) :
    Decoder.addAll Entry.add e (optional "parent" p.toJson? ++ ms) =
      Decoder.addAll Entry.add { e with placement := p } ms := by
  obtain ⟨id, value, placement, extras⟩ := e
  obtain rfl : placement = .unstated := h
  cases p with
  | unstated => rfl
  | topLevel => exact Decoder.addAll_cons _ rfl
  | inside parent => exact Decoder.addAll_cons _ rfl

theorem Fits.record_toJson (h : n.Fits depth) :
    Decoder.record Entry.recordType {} Entry.add (.ofJson n.toJson) = .ok n.entry := by
  rw [toJson, Decoder.record_ofJson n.nodup_keys (by simp [Entry.recordType, fields])]
  simp only [List.cons_append]
  rw [Decoder.addAll_cons { id := n.id } rfl]
  rw [Decoder.addAll_cons { id := n.id, value := n.value }
    (by simp [Entry.add, h.value.decode_toJson, bind, Except.bind])]
  rw [addAll_placement _ _ _ rfl]
  refine Decoder.addAll_extras (fun x => { n.entry with extras := x }) ?_ h.extras
  intro e name doc hname
  simp only [fields, List.mem_cons, List.not_mem_nil, or_false, not_or] at hname
  simp only [Entry.add, hname, if_false]

theorem Fits.decode_toJson (h : n.Fits depth) : decode (.ofJson n.toJson) = .ok n := by
  rw [decode, h.record_toJson]
  simp only [bind, Except.bind, entry, build, ← h.kind]

end Node

namespace Edge

/-- The members of the edge and those of its port pair fit the depths at which they are written. -/
structure Fits (depth : Nat) (e : Edge) : Prop where
  pairExtras : e.pairExtras.Fits (depth + 1)
  extras : e.extras.Fits (depth + 2)

namespace Pair
variable {p : Pair} {depth : Nat}

def shape : RecordShape Pair portFields where
  slots p := [("outPort", some (.str p.outPort)), ("inPort", some (.str p.inPort)),
    ("continuation", p.continuation.map .bool)]
  extras := extras
  keys_slots _ := rfl
  distinct := by decide

theorem toJson_eq (p : Pair) : p.toJson = shape.toJson p := by
  simp [toJson, RecordShape.toJson, shape, Json.optional]

theorem nodup_keys (p : Pair) : p.toJson.keys.Nodup := by
  rw [toJson_eq]
  exact shape.nodup_keys p

theorem fits_toJson (h : p.extras.Fits depth) : p.toJson.Fits (depth + 1) := by
  refine .obj p.nodup_keys ?_
  simp only [List.forall_mem_append, List.forall_mem_cons]
  exact ⟨⟨.str, .str, fits_optional _ fun _ _ => .bool⟩, h⟩

theorem decode_toJson (h : p.extras.Fits depth) : decode (.ofJson p.toJson) = .ok p := by
  rw [decode, toJson, Decoder.record_ofJson p.nodup_keys (by simp [recordType, portFields])]
  simp only [List.cons_append]
  rw [Decoder.addAll_cons { outPort := p.outPort } rfl]
  rw [Decoder.addAll_cons { outPort := p.outPort, inPort := p.inPort } rfl]
  refine (Decoder.addAll_optional (fun x =>
    { outPort := p.outPort, inPort := p.inPort, continuation := x : Pair })
      (fun _ _ => rfl)).trans ?_
  refine Decoder.addAll_extras (fun x => { p with extras := x }) ?_ h
  intro e name doc hname
  simp only [portFields, List.mem_cons, List.not_mem_nil, or_false, not_or] at hname
  simp only [add, hname, if_false]

end Pair

variable {e : Edge} {depth : Nat}

def Entry.shape : RecordShape Entry fields where
  slots e := [("source", some (.str e.source)), ("target", some (.str e.target)),
    ("value", some e.pair.toJson), ("continuation", e.continuation.map .bool),
    ("name", e.name.map .str)]
  extras := extras
  keys_slots _ := rfl
  distinct := by decide

/-- The members that are written for an edge. -/
def entry (e : Edge) : Entry :=
  ⟨e.source.node, e.target.node, e.pair, e.continuation, e.name, e.extras⟩

theorem toJson_eq (e : Edge) : e.toJson = Entry.shape.toJson e.entry := by
  simp [toJson, entry, RecordShape.toJson, Entry.shape, Json.optional]

theorem nodup_keys (e : Edge) : e.toJson.keys.Nodup := by
  rw [toJson_eq]
  exact Entry.shape.nodup_keys e.entry

theorem Fits.fits_toJson (h : e.Fits depth) : e.toJson.Fits (depth + 3) := by
  refine .obj e.nodup_keys ?_
  simp only [List.forall_mem_append, List.forall_mem_cons]
  exact ⟨⟨⟨.str, .str, Pair.fits_toJson h.pairExtras, fits_optional _ fun _ _ => .bool⟩,
    fits_optional _ fun _ _ => .str⟩, h.extras⟩

theorem Fits.record_toJson (h : e.Fits depth) :
    Decoder.record Entry.recordType {} Entry.add (.ofJson e.toJson) = .ok e.entry := by
  have hpair : Pair.decode (.ofJson e.pair.toJson) = .ok e.pair :=
    Pair.decode_toJson h.pairExtras
  rw [toJson, Decoder.record_ofJson e.nodup_keys (by simp [Entry.recordType, fields])]
  simp only [List.cons_append, List.append_assoc]
  rw [Decoder.addAll_cons { source := e.source.node } rfl]
  rw [Decoder.addAll_cons { source := e.source.node, target := e.target.node } rfl]
  rw [Decoder.addAll_cons { source := e.source.node, target := e.target.node, pair := e.pair }
    (by simp [Entry.add, hpair, bind, Except.bind])]
  refine (Decoder.addAll_optional (fun x =>
    { e.entry with continuation := x, name := none, extras := .empty : Entry })
      (fun _ _ => rfl)).trans ?_
  refine (Decoder.addAll_optional (fun x => { e.entry with name := x, extras := .empty : Entry })
    (fun _ _ => rfl)).trans ?_
  refine Decoder.addAll_extras (fun x => { e.entry with extras := x }) ?_ h.extras
  intro x name doc hname
  simp only [fields, List.mem_cons, List.not_mem_nil, or_false, not_or] at hname
  simp only [Entry.add, hname, if_false]

theorem Fits.decode_toJson (h : e.Fits depth) : decode (.ofJson e.toJson) = .ok e := by
  rw [decode, h.record_toJson]
  rfl

end Edge

namespace Graph

/-- The nodes, the edges and the other members of a graph fit the depth at which they are
written. -/
structure Fits (depth : Nat) (g : Graph) : Prop where
  nodes : ∀ n ∈ g.nodes.toList, n.Fits depth
  edges : ∀ e ∈ g.edges, e.Fits depth
  extras : g.extras.Fits (depth + 4)

variable {g : Graph} {depth : Nat}

def Entry.shape : RecordShape Entry fields where
  slots e := [("nodes", some (.arr (e.nodes.map Node.toJson))),
    ("edges", some (.arr (e.edges.map Edge.toJson)))]
  extras := extras
  keys_slots _ := rfl
  distinct := by decide

/-- The members that are written for a graph. -/
def entry (g : Graph) : Entry := ⟨g.nodes.toList, g.edges, g.extras⟩

theorem toJson_eq (g : Graph) : g.toJson = Entry.shape.toJson g.entry := rfl

theorem nodup_keys (g : Graph) : g.toJson.keys.Nodup := Entry.shape.nodup_keys g.entry

theorem Fits.fits_toJson (h : g.Fits depth) (hdepth : 0 < depth) : g.toJson.Fits (depth + 5) := by
  refine .obj g.nodup_keys ?_
  simp only [List.forall_mem_cons]
  refine ⟨.arr ?_, .arr ?_, h.extras⟩
  · intro x hx
    obtain ⟨n, hn, rfl⟩ := List.mem_map.mp hx
    exact (h.nodes n hn).fits_toJson hdepth
  · intro x hx
    obtain ⟨e, he, rfl⟩ := List.mem_map.mp hx
    exact (h.edges e he).fits_toJson

theorem Fits.record_toJson (h : g.Fits depth) :
    Decoder.record Entry.recordType {} Entry.add (.ofJson g.toJson) = .ok g.entry := by
  have hnodes := Decoder.list_ofJson Node.decode Node.toJson g.nodes.toList
    fun n hn => (h.nodes n hn).decode_toJson
  have hedges := Decoder.list_ofJson Edge.decode Edge.toJson g.edges
    fun e he => (h.edges e he).decode_toJson
  rw [toJson, Decoder.record_ofJson g.nodup_keys (by simp [Entry.recordType])]
  rw [Decoder.addAll_cons { nodes := g.nodes.toList }
    (by simp [Entry.add, hnodes, bind, Except.bind])]
  rw [Decoder.addAll_cons { nodes := g.nodes.toList, edges := g.edges }
    (by simp [Entry.add, hedges, bind, Except.bind])]
  refine Decoder.addAll_extras (fun x => { g.entry with extras := x }) ?_ h.extras
  intro x name doc hname
  simp only [fields, List.mem_cons, List.not_mem_nil, or_false, not_or] at hname
  simp only [Entry.add, hname, if_false]

theorem Fits.decode_toJson (h : g.Fits depth) : decode (.ofJson g.toJson) = .ok g := by
  rw [decode, h.record_toJson]
  simp only [bind, Except.bind, entry, Entry.toGraph, Table.ofList_toList]

/-- The nesting that is left inside the five containers around the type of a port: the graph, its
list of nodes, a node, its value and its port map. -/
def innerDepth : Nat := depthLimit - 5

/-- A graph within the nesting limit is read back from its text in any layout. -/
theorem Fits.ofText_write {layout : Layout} (h : g.Fits innerDepth) (hlayout : layout.Blank) :
    ofText (.ofList (write layout 0 g.toJson)) = .ok g := by
  have hfits : g.toJson.Fits depthLimit := h.fits_toJson (by decide)
  have hend : ClosesNumber [] := by rintro c ⟨⟩
  have hread := readValue_write hlayout hfits 0 hend (Nat.le_refl _)
  rw [List.append_nil] at hread
  rw [ofText, decodeText, decodeWith, String.toList_ofList]
  simp only [hread, h.decode_toJson, bind, Except.bind]
  rfl

end Graph
end PortNet
