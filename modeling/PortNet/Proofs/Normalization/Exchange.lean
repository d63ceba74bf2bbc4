import PortNet.Proofs.Loading
import PortNet.Proofs.Normalization.Stage

namespace PortNet
open Json

variable {depth : Nat} {type : PortType}

theorem Node.fits_build {v : NodeValue} (hv : v.Fits depth) (id : NodeId) (placement : Placement) :
    (build id v placement).Fits depth :=
  ⟨rfl, hv, Extras.fits_empty _⟩

theorem Settings.fits_ordering (depth : Nat) (names : List PortName) :
    ({ argumentOrdering := some names } : Settings).Fits depth :=
  ⟨fun _ hnone => absurd hnone (by simp), Extras.fits_empty _⟩

namespace Synthesis
variable {settings : Settings} {inputs outputs : List (PortName × PortType)}

/-- A concrete type is marked by its name. -/
theorem fits_twoWaySettings (depth : Nat) (names : List PortName) (type : PortType) :
    (twoWaySettings names type).Fits depth := by
  unfold twoWaySettings
  split
  · refine ⟨fun t ht => ?_, Extras.fits_empty _⟩
    cases ht
    exact ⟨Json.noConfusion, .str⟩
  · exact Settings.fits_ordering depth names

theorem fits_atomicValue (component version : String) (hin : ∀ p ∈ inputs, p.2.json.Fits depth)
    (hout : ∀ p ∈ outputs, p.2.json.Fits depth) (hsettings : settings.Fits depth) :
    (atomicValue component version inputs outputs settings).Fits depth where
  ports side := by
    cases side with
    | input => exact fun p hp => hin p (Table.mem_of_mem_ofList hp)
    | output => exact fun p hp => hout p (Table.mem_of_mem_ofList hp)
  settings s hs := by
    cases hs
    exact hsettings
  extras := Extras.fits_empty _

theorem fits_twoWay (h : type.json.Fits depth) (d : Direction) (id : NodeId)
    (scope : Option NodeId) : (twoWay d id type scope).Fits depth := by
  cases d with
  | outward =>
    exact Node.fits_build (fits_atomicValue _ _ (by simpa using h) (by simpa using h)
      (fits_twoWaySettings depth _ type)) _ _
  | inward =>
    have hvalue : (atomicValue joinComponent "0.3.0" [("in1", type), ("in2", type)]
        [("to", type)] (twoWaySettings ["in1", "in2", "to"] type)).Fits depth :=
      fits_atomicValue _ _ (by simpa using h) (by simpa using h)
        (fits_twoWaySettings depth _ type)
    exact Node.fits_build (v := { atomicValue _ _ _ _ _ with specialForm := some true })
      ⟨hvalue.ports, hvalue.settings, hvalue.extras⟩ _ _

theorem fits_bridge {input output : PortType} (hin : input.json.Fits depth)
    (hout : output.json.Fits depth) (id scope : NodeId) :
    (bridge id input output scope).Fits depth :=
  Node.fits_build (fits_atomicValue _ _ (by simpa using hin) (by simpa using hout)
    (Settings.fits_ordering depth _)) _ _

theorem fits_sink (h : type.json.Fits depth) (id : NodeId) (scope : Option NodeId) :
    (sink id type scope).Fits depth :=
  Node.fits_build (fits_atomicValue _ _ (by simpa using h) (by simp)
    (Settings.fits_ordering depth _)) _ _

end Synthesis

theorem Edge.fits_between (depth : Nat) (source target : Port) :
    (between source target).Fits depth :=
  ⟨Extras.fits_empty _, Extras.fits_empty _⟩

/-- The nodes and the edges of a batch fit the depth at which those of a graph are written. -/
structure Batch.Fits (depth : Nat) (b : Batch) : Prop where
  nodes : ∀ n ∈ b.nodes, n.Fits depth
  edges : ∀ e ∈ b.edges, e.Fits depth

theorem Revision.fits {g g' : Graph} {keep : Edge → Bool} {batch : Batch}
    (h : Revision g g' keep batch) (hg : g.Fits depth) (hbatch : batch.Fits depth) :
    g'.Fits depth where
  nodes n hn := (h.mem_nodes_iff.mp hn).elim (hg.nodes n) (hbatch.nodes n)
  edges e he := (h.mem_edges_iff.mp he).elim (fun hold => hg.edges e hold.1) (hbatch.edges e)
  extras := h.extras ▸ hg.extras

namespace Graph
variable {g g' : Graph} {p : Port} {side : Side}

theorem Fits.port (hg : g.Fits depth) {n : Node} (hn : n ∈ g.nodes.toList)
    (h : Dictionary.get? (n.value.ports side) p.name = some type) : type.json.Fits depth := by
  obtain ⟨m, hm, rfl⟩ := Option.map_eq_some_iff.mp h
  exact (hg.nodes n hn).value.ports side m (Table.find?_eq_some_iff.mp hm).1

theorem Fits.portType? (hg : g.Fits depth) (h : g.portType? p side = some type) :
    type.json.Fits depth := by
  obtain ⟨n, hn, htype⟩ := Option.bind_eq_some_iff.mp h
  obtain ⟨hmem, _⟩ := node?_eq_some_iff.mp hn
  rcases Option.or_eq_some_iff.mp htype with htype | ⟨_, htype⟩
  · exact hg.port hmem htype
  · exact hg.port hmem htype

theorem Fits.rootOf (hg : g.Fits depth) {d : Direction} {b : Bundle} (hb : b ∈ g.bundles d) :
    (g.rootOf b).type.json.Fits depth := by
  rw [Graph.rootOf, (mem_bundles.mp hb).2.2.1]
  cases htype : g.portType? b.anchor d.side with
  | none => exact .null
  | some type => exact hg.portType? htype

theorem Fits.fanPlan (hg : g.Fits depth) : g.fanPlan.Fits depth where
  nodes n hn := by
    obtain ⟨d, b, hb, heq⟩ := exists_twoWay_of_mem_fanPlan hn
    rw [heq]
    exact Synthesis.fits_twoWay (hg.rootOf hb) d _ _
  edges e he := by
    obtain ⟨d, near, far, rfl⟩ := exists_connect_of_mem_fanPlan he
    cases d with
    | outward => exact Edge.fits_between depth _ _
    | inward => exact Edge.fits_between depth _ _

theorem Fits.looping (hg : g.Fits depth) (p : Port) (side : Side) :
    (g.looping p side).json.Fits depth := by
  rw [Graph.looping, loopType]
  split
  · rename_i type h
    obtain ⟨n, hn, htype⟩ := Option.bind_eq_some_iff.mp h
    exact hg.port (node?_eq_some_iff.mp hn).1 htype
  · exact .null

theorem Fits.bridgePlan (hg : g.Fits depth) : g.bridgePlan.Fits depth where
  nodes n hn := by
    obtain ⟨r, _, rfl⟩ := List.mem_map.mp hn
    exact Synthesis.fits_bridge (hg.looping _ _) (hg.looping _ _) _ _
  edges e he := by
    obtain ⟨r, _, he⟩ := List.mem_flatMap.mp he
    rcases List.mem_pair.mp he with rfl | rfl
    · exact ⟨Extras.fits_empty _, Extras.fits_empty _⟩
    · exact ⟨Extras.fits_empty _, Extras.fits_empty _⟩

theorem Fits.unused (hg : g.Fits depth) {n : Node} (hn : n ∈ g.nodes.toList)
    {scope : Option NodeId} {u : Unconsumed} (hu : u ∈ g.unusedPorts n side scope) :
    u.type.json.Fits depth := by
  obtain ⟨m, hm, rfl⟩ := List.mem_map.mp hu
  exact (hg.nodes n hn).value.ports side m (List.mem_filter.mp hm).1

theorem Fits.unconsumed (hg : g.Fits depth) {u : Unconsumed} (hu : u ∈ g.unconsumedPorts) :
    u.type.json.Fits depth := by
  obtain ⟨n, hn, hu⟩ := List.mem_flatMap.mp hu
  rcases mem_unusedPorts_of_mem_unconsumedAt hu with hu | hu
  · exact hg.unused hn hu
  · exact hg.unused hn hu

theorem Fits.sinkPlan (hg : g.Fits depth) : g.sinkPlan.Fits depth where
  nodes n hn := by
    obtain ⟨u, hu, rfl⟩ := List.mem_map.mp hn
    exact Synthesis.fits_sink (hg.unconsumed hu) _ _
  edges e he := by
    obtain ⟨u, _, rfl⟩ := List.mem_map.mp he
    exact ⟨Extras.fits_empty _, Extras.fits_empty _⟩

end Graph

namespace Pass.Stage
variable {g g' : Graph} {pass : Pass} {enabled : Bool}

theorem fits_plan (hg : g.Fits depth) (pass : Pass) : (pass.plan g).Fits depth := by
  cases pass with
  | expandFans => exact hg.fanPlan
  | bridgeLoops => exact hg.bridgePlan
  | addSinks => exact hg.sinkPlan

theorem fits (hwf : g.WellFormed) (hg : g.Fits depth) (h : pass.Stage g enabled g') :
    g'.Fits depth := by
  cases h with
  | off => exact hg
  | on h => exact (revision_run hwf h).fits hg (fits_plan hg pass)

end Pass.Stage

namespace Graph
variable {g g' : Graph}

/-- What normalization makes of a graph is nested no deeper than the graph. -/
theorem Fits.normalize (hg : g.Fits depth) {o : Options} (h : g.normalize o = .ok g') :
    g'.Fits depth := by
  obtain ⟨hwf, g₁, g₂, hfans, hloops, hsinks⟩ := stages_of_normalize h
  have hwf₁ := hfans.wellFormed hwf
  exact hsinks.fits (hloops.wellFormed hwf₁) (hloops.fits hwf₁ (hfans.fits hwf hg))

/-- The graphs that were loaded from a text of whole numbers, and what normalization makes of
them. -/
inductive Exchanged : Graph → Prop
  | loaded {g : Graph} {text : String} : ofText text = .ok g →
      (∀ n ∈ (documentOf text).numbers, n.Whole) → Exchanged g
  | normalized {g g' : Graph} {o : Options} : Exchanged g → g.normalize o = .ok g' → Exchanged g'

theorem Exchanged.fits (h : g.Exchanged) : g.Fits innerDepth := by
  induction h with
  | loaded hload hwhole => exact fits_ofText hload hwhole
  | normalized _ hrun ih => exact ih.normalize hrun

/-- Loading undoes writing, be it in the canonical or in the pretty layout; so no two graphs have
one canonical text. -/
theorem ofText_written (h : g.Exchanged) : ofText g.canonicalText = .ok g ∧
    ofText g.prettyText = .ok g ∧
      ∀ g', g'.Exchanged → g'.canonicalText = g.canonicalText → g' = g := by
  have hcanonical : ∀ g : Graph, g.Exchanged → ofText g.canonicalText = .ok g :=
    fun _ h => h.fits.ofText_write Layout.blank_compact
  refine ⟨hcanonical g h, h.fits.ofText_write Layout.blank_pretty, ?_⟩
  -- Both graphs are what their common text is read as.
  intro g' h' heq
  have hload := hcanonical g' h'
  rw [heq, hcanonical g h] at hload
  exact (Except.ok.inj hload).symm

/-- A node whose parent is stated to be missing, with an output, an empty map of inputs and a member
of its own. -/
def jotting : String :=
  let value : Json := .obj [("inputPorts", .obj []), ("outputPorts", .obj [("o", .str "int")]),
    ("atomic", .bool true)]
  let rank : Json := .arr [.num (.integer 1), .num (.integer (-2))]
  compact (.obj [("nodes", .arr [.obj [("id", .str "a"), ("value", value), ("parent", .null),
    ("rank", rank)]])])

/-- It is drained into a sink by normalization. -/
theorem ofText_written_jotting : ∃ g g', ofText jotting = .ok g ∧ g.normalize {} = .ok g' ∧
    g'.nodes.toList.length = 2 ∧ ofText g'.canonicalText = .ok g' ∧
      ofText g'.prettyText = .ok g' := by
  have hrun : ((ofText jotting).toOption.bind (fun g => (g.normalize {}).toOption)).any
      (fun g' => g'.nodes.toList.length = 2) = true := by decide +kernel
  have hwhole : ∀ n ∈ (documentOf jotting).numbers, n.Whole := by decide +kernel
  obtain ⟨g', hg', hsize⟩ := (Option.any_eq_true _ _).mp hrun
  obtain ⟨g, hload, hnormalize⟩ := Option.bind_eq_some_iff.mp hg'
  have hload := eq_ok_of_toOption hload
  have hnormalize := eq_ok_of_toOption hnormalize
  obtain ⟨hcanonical, hpretty, _⟩ := ofText_written (.normalized (.loaded hload hwhole) hnormalize)
  exact ⟨g, g', hload, hnormalize, of_decide_eq_true hsize, hcanonical, hpretty⟩

end Graph
end PortNet
