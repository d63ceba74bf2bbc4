import PortNet.Proofs.Fan.JoinOrder

namespace PortNet

/-- A node that hangs below a port: its trunk is joined to the port itself or, at a greater depth,
to a branch of a node that hangs there. All nodes on the way are `inner`. -/
inductive Hangs (d : Direction) (edges : List Edge) (inner : NodeId → Bool) (anchor : Port) :
    NodeId → Prop
  | top {e : Edge} {id : NodeId} (he : e ∈ edges) (hnear : d.near e = anchor)
      (htrunk : d.far e = ⟨id, d.trunk⟩) (hinner : inner id = true) :
      Hangs d edges inner anchor id
  | deeper {e : Edge} {id above : NodeId} (habove : Hangs d edges inner anchor above)
      (he : e ∈ edges)
      (hbranch : d.near e = ⟨above, d.branches.1⟩ ∨ d.near e = ⟨above, d.branches.2⟩)
      (htrunk : d.far e = ⟨id, d.trunk⟩) (hinner : inner id = true) :
      Hangs d edges inner anchor id

namespace Hangs
variable {d : Direction} {edges : List Edge} {inner : NodeId → Bool} {p q : Port} {id : NodeId}

theorem inner_eq (h : Hangs d edges inner p id) : inner id = true := by
  cases h with
  | top _ _ _ hinner => exact hinner
  | deeper _ _ _ _ hinner => exact hinner

theorem exists_trunk (h : Hangs d edges inner p id) : ∃ e ∈ edges, d.far e = ⟨id, d.trunk⟩ := by
  cases h with
  | top he _ htrunk _ => exact ⟨_, he, htrunk⟩
  | deeper _ he _ htrunk _ => exact ⟨_, he, htrunk⟩

theorem node_of_branch {e : Edge} {above : NodeId}
    (h : d.near e = ⟨above, d.branches.1⟩ ∨ d.near e = ⟨above, d.branches.2⟩) :
    (d.near e).node = above := by
  rcases h with h | h
  · rw [h]
  · rw [h]

/-- Where no two edges share their far ends, the way up from a node leads to one port only. -/
theorem unique (hn : (edges.map d.far).Nodup) (hp : inner p.node = false)
    (hq : inner q.node = false) (h : Hangs d edges inner p id) (h' : Hangs d edges inner q id) :
    p = q := by
  have hedge : ∀ {e e' : Edge} {id : NodeId}, e ∈ edges → e' ∈ edges → d.far e = ⟨id, d.trunk⟩ →
      d.far e' = ⟨id, d.trunk⟩ → e = e' := fun he he' hfar hfar' =>
    List.inj_on_of_nodup_map hn he he' (hfar.trans hfar'.symm)
  induction h with
  | top he hnear htrunk _ =>
    cases h' with
    | top he' hnear' htrunk' _ => rw [← hnear, ← hnear', hedge he he' htrunk htrunk']
    | deeper habove he' hbranch htrunk' _ =>
      have hnode := node_of_branch hbranch
      rw [← hedge he he' htrunk htrunk', hnear] at hnode
      rw [hnode, habove.inner_eq] at hp
      cases hp
  | deeper habove he hbranch htrunk _ ih =>
    cases h' with
    | top he' hnear' htrunk' _ =>
      have hnode := node_of_branch hbranch
      rw [hedge he he' htrunk htrunk', hnear'] at hnode
      rw [hnode, habove.inner_eq] at hq
      cases hq
    | deeper habove' he' hbranch' htrunk' _ =>
      have hnode := node_of_branch hbranch
      rw [hedge he he' htrunk htrunk', node_of_branch hbranch'] at hnode
      exact ih (hnode ▸ habove')

end Hangs

namespace FanTree
variable {d : Direction} {edges : List Edge} {inner : NodeId → Bool}

/-- Every node of a tree hangs below the port that the tree itself is joined to. Only the edges to
its trunks are needed for that. -/
theorem hangs_of_mem_ids {t : FanTree} {root : FanRoot} {anchor : Port} {id : NodeId}
    (hroot : root.port = anchor ∨ ∃ above, Hangs d edges inner anchor above ∧
      (root.port = ⟨above, d.branches.1⟩ ∨ root.port = ⟨above, d.branches.2⟩))
    (htrunk : ∀ e ∈ (t.batch d root).edges, (d.far e).node ∈ (t.batch d root).ids → e ∈ edges)
    (hinner : ∀ id ∈ (t.batch d root).ids, inner id = true) (hid : id ∈ (t.batch d root).ids) :
    Hangs d edges inner anchor id := by
  induction t generalizing root with
  | leaf peer => cases hid
  | fork first last left right ihl ihr =>
    rw [ids_batch_fork] at htrunk hinner hid
    obtain ⟨htop, hbelow⟩ := List.forall_mem_cons.mp hinner
    obtain ⟨hleft, hright⟩ := List.forall_mem_append.mp hbelow
    have he : d.connect root.port ⟨forkId d root first last, d.trunk⟩ ∈ edges :=
      htrunk _ (by simp [batch_fork]) (by simp)
    have hfork : Hangs d edges inner anchor (forkId d root first last) := by
      rcases hroot with hanchor | ⟨above, habove, hbranch⟩
      · exact .top he ((d.near_connect _ _).trans hanchor) (d.far_connect _ _) htop
      · rw [← d.near_connect root.port ⟨forkId d root first last, d.trunk⟩] at hbranch
        exact .deeper habove he hbranch (d.far_connect _ _) htop
    rcases List.mem_cons.mp hid with rfl | hid
    · exact hfork
    · rcases List.mem_append.mp hid with hl | hr
      · refine ihl (.inr ⟨_, hfork, .inl rfl⟩) (fun e he hfar => htrunk e ?_ ?_) hleft hl
        · simp [batch_fork, he]
        · simp [hfar]
      · refine ihr (.inr ⟨_, hfork, .inr rfl⟩) (fun e he hfar => htrunk e ?_ ?_) hright hr
        · simp [batch_fork, he]
        · simp [hfar]

end FanTree

namespace PortType

theorem occurs_iff {word text : List Char} : occurs word text = true ↔ word <:+: text := by
  induction text with
  | nil => simp [occurs]
  | cons c cs ih =>
    rw [occurs, Bool.or_eq_true, List.isPrefixOf_iff_prefix, ih, List.infix_cons_iff]

/-- A type that is given by a name in which `generic` does not occur. -/
def Concrete (t : PortType) : Prop :=
  ∃ name, t.json = .str name ∧ ¬ "generic".toList <:+: name.toList

variable {t : PortType}

theorem concreteName?_str (name : String) : (named name).concreteName? =
    if occurs "generic".toList name.toList then none else some name := rfl

theorem concreteName?_of_concrete (h : t.Concrete) :
    ∃ name, t.concreteName? = some name ∧ named name = t := by
  obtain ⟨json⟩ := t
  obtain ⟨name, rfl, hname⟩ := h
  refine ⟨name, ?_, rfl⟩
  rw [← occurs_iff] at hname
  exact (concreteName?_str name).trans (if_neg hname)

theorem concreteName?_eq_none (h : ¬ t.Concrete) : t.concreteName? = none := by
  obtain ⟨json⟩ := t
  cases json with
  | str name =>
    refine (concreteName?_str name).trans (if_pos (occurs_iff.mpr ?_))
    exact by_contra fun hname => h ⟨name, rfl, hname⟩
  | _ => rfl

end PortType

namespace Synthesis

/-- Settings mark a node for specialization over a type, or do not mark it at all. -/
structure Marks (type : PortType) (s : Settings) : Prop where
  marked : s.isGeneric = some true ∧ s.genericType = some type ↔ type.Concrete
  unmarked : ¬ type.Concrete → s.isGeneric = none ∧ s.genericType = none

theorem marks_twoWaySettings (ordering : List PortName) (type : PortType) :
    Marks type (twoWaySettings ordering type) := by
  by_cases htype : type.Concrete
  · obtain ⟨name, hname, heq⟩ := PortType.concreteName?_of_concrete htype
    have hsettings : twoWaySettings ordering type =
        { argumentOrdering := some ordering
          isGeneric := some true
          genericType := some type } := by
      rw [twoWaySettings, hname, ← heq]
    rw [hsettings]
    exact ⟨iff_of_true ⟨rfl, rfl⟩ htype, fun hnot => absurd htype hnot⟩
  · have hsettings : twoWaySettings ordering type = { argumentOrdering := some ordering } := by
      rw [twoWaySettings, PortType.concreteName?_eq_none htype]
    rw [hsettings]
    exact ⟨iff_of_false (fun hall => nomatch hall.1) htype, fun _ => ⟨rfl, rfl⟩⟩

end Synthesis

namespace Graph

/-- The type that is declared for a port, on its own side or, if there is none, on the other. -/
def Declared (g : Graph) (p : Port) (side : Side) (type : PortType) : Prop :=
  ∃ n, g.node? p.node = some n ∧ (Dictionary.get? (n.value.ports side) p.name = some type ∨
    Dictionary.get? (n.value.ports side) p.name = none ∧
      Dictionary.get? (n.value.ports side.opposite) p.name = some type)

/-- A node of the tree over a bundle: a duplicate or a join all of whose ports have one type, which
it is marked for, in the scope of the tree. -/
structure Carries (g : Graph) (d : Direction) (b : Bundle) (type : PortType) (n : Node) : Prop where
  component : n.value.component = some (match d with
    | .outward => Synthesis.duplicateComponent
    | .inward => Synthesis.joinComponent)
  declared : g.Declared b.anchor d.side type
  trunk : (n.value.ports d.side.opposite).toList = [(d.trunk, type)]
  branches : (n.value.ports d.side).toList = [(d.branches.1, type), (d.branches.2, type)]
  scope : g.fanScope b.anchor.node b.lastPeer.node = .ok n.parent?
  marks : ∃ s, n.value.settings = some s ∧ Synthesis.Marks type s

/-- A node hangs below a port of `g'` through nodes that were added to `g`. -/
def HangsBelow (g g' : Graph) (d : Direction) (anchor : Port) (id : NodeId) : Prop :=
  Hangs d g'.dataEdges (fun id => !g.contains id) anchor id

variable {g : Graph} {b : Bundle} {d : Direction} {p : Port} {c : Change}

theorem declared_iff {type : PortType} {side : Side} :
    g.Declared p side type ↔ g.portType? p side = some type := by
  rw [portType?, Option.bind_eq_some_iff]
  exact exists_congr fun n => and_congr_right fun _ => Option.or_eq_some_iff.symm

theorem carries_twoWay (hg : g.WellFormed) (hb : b ∈ g.bundles d) (id : NodeId) :
    ∃ type, g.Carries d b type (Synthesis.twoWay d id (g.rootOf b).type (g.rootOf b).scope) := by
  obtain ⟨hc, _, ht, _⟩ := mem_bundles.mp hb
  obtain ⟨type, htype⟩ := (hg.declares_anchor hb).exists_portType d.side
  have hroot : (g.rootOf b).type = type := by
    rw [rootOf, ht, htype]
    rfl
  have hscope : g.fanScope b.anchor.node b.lastPeer.node = .ok (g.rootOf b).scope := by
    rw [rootOf, fanScope_eq hc (hg.contains_lastPeer hb)]
    rfl
  rw [hroot]
  refine ⟨type, ?_, declared_iff.mpr htype, ?_, ?_, ?_, ?_⟩
  · cases d <;> rfl
  · cases d <;> rfl
  · cases d <;> rfl
  · rw [Synthesis.parent?_twoWay, hscope]
  · cases d with
    | outward => exact ⟨_, rfl, Synthesis.marks_twoWaySettings _ _⟩
    | inward => exact ⟨_, rfl, Synthesis.marks_twoWaySettings _ _⟩

/-- The nodes of a join tree hang below its anchor. -/
theorem hangsBelow_inTree (hg : g.WellFormed) (h : g.expandFans.result = .ok c)
    (hb : b ∈ g.bundles .inward) {id : NodeId} (hid : id ∈ (g.inTree b).ids) :
    g.HangsBelow g.expandFans.graph .inward b.anchor id := by
  refine FanTree.hangs_of_mem_ids (.inl rfl) (fun e he _ => ?_) (fun id hid => ?_) hid
  · exact mem_dataEdges_of_mem_fanPlan hg h (mem_edges_fanPlan.mpr (.inl ⟨b, hb, he⟩))
  · simpa using (freshPlan_of_expandFans hg h).inTree hb hid

/-- So do those of a duplicate tree: only edges to its leaves are held back. -/
theorem hangsBelow_outTree (hg : g.WellFormed) (h : g.expandFans.result = .ok c)
    (hb : b ∈ g.bundles .outward) {id : NodeId} (hid : id ∈ (g.outTree b).ids) :
    g.HangsBelow g.expandFans.graph .outward b.anchor id := by
  have hf := freshPlan_of_expandFans hg h
  refine FanTree.hangs_of_mem_ids (.inl rfl) (fun e he hfar => ?_) (fun id hid => ?_) hid
  · refine mem_dataEdges_of_mem_fanPlan hg h (mem_edges_fanPlan.mpr (.inr ⟨b, hb, he, ?_⟩))
    rcases FanTree.far_of_mem_edges he with hleaf | ⟨n, hn, hp⟩
    · rw [FanTree.leaves_spanning b.peers_ne_nil] at hleaf
      exact absurd hfar (peer_not_mem_outTree hg hf hb hleaf)
    · exact not_fannedIn hg hf hb (List.mem_flatMap.mpr ⟨n, hn, hp⟩)
  · simpa using hf.outTree hb hid

/-- Every planned node is made for one of the bundles, and hangs below its anchor. -/
theorem exists_bundle_of_mem_fanPlan (hg : g.WellFormed) (h : g.expandFans.result = .ok c)
    {n : Node} (hn : n ∈ g.fanPlan.nodes) : ∃ d, ∃ b ∈ g.bundles d,
      n = Synthesis.twoWay d n.id (g.rootOf b).type (g.rootOf b).scope ∧
        g.HangsBelow g.expandFans.graph d b.anchor n.id := by
  rw [nodes_fanPlan, List.mem_append, List.mem_flatMap, List.mem_flatMap] at hn
  rcases hn with ⟨b, hb, hn⟩ | ⟨b, hb, hn⟩
  · exact ⟨.inward, b, hb, FanTree.eq_twoWay_of_mem_batch hn,
      hangsBelow_inTree hg h hb (List.mem_map.mpr ⟨n, hn, rfl⟩)⟩
  · exact ⟨.outward, b, hb, FanTree.eq_twoWay_of_mem_batch hn,
      hangsBelow_outTree hg h hb (List.mem_map.mpr ⟨n, hn, rfl⟩)⟩

/-- A trunk port tells the direction of its node. -/
theorem direction_of_hangsBelow (hg : g.WellFormed) (h : g.expandFans.result = .ok c)
    {n : Node} (hn : n ∈ g.expandFans.graph.nodes.toList) {d' : Direction} {type : PortType}
    {scope : Option NodeId} (htwoWay : n = Synthesis.twoWay d' n.id type scope)
    (hhangs : g.HangsBelow g.expandFans.graph d p n.id) : d = d' := by
  obtain ⟨e, he, htrunk⟩ := hhangs.exists_trunk
  have hends := (wellFormed_expandFans hg h).ends e (mem_dataEdges.mp he).1
  have hdeclares : g.expandFans.graph.Declares (d.far e) := by
    cases d with
    | outward => exact hends.2
    | inward => exact hends.1
  obtain ⟨m, hm, hname⟩ := hdeclares
  rw [htrunk, node?_of_mem hn, Option.some.injEq] at hm
  rw [htrunk, ← hm, htwoWay] at hname
  cases d <;> cases d' <;> first | rfl | cases hname

/-- No node hangs below two anchors. -/
theorem bundle_of_hangsBelow (hg : g.WellFormed) (h : g.expandFans.result = .ok c) {b' : Bundle}
    (hb : b ∈ g.bundles d) (hb' : b' ∈ g.bundles d) {id : NodeId}
    (hhangs : g.HangsBelow g.expandFans.graph d b.anchor id)
    (hhangs' : g.HangsBelow g.expandFans.graph d b'.anchor id) : b = b' := by
  have hfar : (g.expandFans.graph.dataEdges.map d.far).Nodup := by
    cases d with
    | outward => exact nodup_near_expandFans hg h .inward
    | inward => exact nodup_near_expandFans hg h .outward
  have hanchor := Hangs.unique hfar (by simp [(mem_bundles.mp hb).1])
    (by simp [(mem_bundles.mp hb').1]) hhangs hhangs'
  exact List.inj_on_of_nodup_map nodup_anchors hb hb' hanchor

/-- Type, mark and scope of a bundle reach all nodes of its tree: every node that the expansion of
fans adds hangs below the anchor of some bundle, and has everything from there. -/
theorem tree_nodes_carry (hv : Validator.structural.accepts g = true)
    (h : g.expandFans.result = .ok c) :
    ∀ n ∈ g.expandFans.graph.nodes.toList, g.contains n.id = false →
      (∃ d, ∃ b ∈ g.bundles d, g.HangsBelow g.expandFans.graph d b.anchor n.id) ∧
        ∀ d, ∀ b ∈ g.bundles d, g.HangsBelow g.expandFans.graph d b.anchor n.id →
          ∃ type, g.Carries d b type n := by
  have hg := accepts_iff.mp hv
  intro n hn hnew
  have hplanned : n ∈ g.fanPlan.nodes := by
    rcases (revision_expandFans hg h).mem_nodes_iff.mp hn with hold | hplanned
    · rw [contains_iff.mpr ⟨n, hold, rfl⟩] at hnew
      cases hnew
    · exact hplanned
  obtain ⟨d, b, hb, htwoWay, hhangs⟩ := exists_bundle_of_mem_fanPlan hg h hplanned
  refine ⟨⟨d, b, hb, hhangs⟩, fun d' b' hb' hhangs' => ?_⟩
  obtain rfl := direction_of_hangsBelow hg h hn htwoWay hhangs'
  obtain rfl := bundle_of_hangsBelow hg h hb' hb hhangs' hhangs
  obtain ⟨type, hcarries⟩ := carries_twoWay hg hb' n.id
  exact ⟨type, htwoWay ▸ hcarries⟩

/-- Fans at both boundary ports of a compound node, over a described type and over `int`, and one at
the top level over a placeholder. -/
def layered : Graph where
  nodes := .ofList [
    .build "c" { inputs := some (.ofList [("x", ⟨.arr [.str "int"]⟩)]),
                 outputs := some (.ofList [("y", .named "int")]) } .unstated,
    .build "a" { inputs := some (.ofList [("i", ⟨.arr [.str "int"]⟩)]),
                 outputs := some (.ofList [("o", .named "int")]) } (.inside "c"),
    .build "b" { inputs := some (.ofList [("i", ⟨.arr [.str "int"]⟩)]),
                 outputs := some (.ofList [("o", .named "int")]) } (.inside "c"),
    .build "k" { outputs := some (.ofList [("o", .named "int")]) } (.inside "c"),
    .build "s" { outputs := some (.ofList [("o", .named "list<generic>")]) } .unstated,
    .build "t" { inputs := some (.ofList [("i", .named "list<generic>")]) } .unstated,
    .build "u" { inputs := some (.ofList [("i", .named "list<generic>")]) } .unstated]
  edges := [.between ⟨"c", "x"⟩ ⟨"a", "i"⟩, .between ⟨"c", "x"⟩ ⟨"b", "i"⟩,
    .between ⟨"a", "o"⟩ ⟨"c", "y"⟩, .between ⟨"b", "o"⟩ ⟨"c", "y"⟩, .between ⟨"k", "o"⟩ ⟨"c", "y"⟩,
    .between ⟨"s", "o"⟩ ⟨"t", "i"⟩, .between ⟨"s", "o"⟩ ⟨"u", "i"⟩]

/-- The second join below `c` still has the type of the port `y`, which is no input of `c`. -/
theorem tree_nodes_carry_layered : layered.expandFans.result = .ok ⟨4, 7, 11⟩ ∧
    ∃ n ∈ layered.expandFans.graph.nodes.toList, n.id = "c_y_JOIN_0_2_in1_JOIN_0_1" ∧
      ∃ b ∈ layered.bundles .inward, b.anchor = ⟨"c", "y"⟩ ∧
        layered.Carries .inward b (.named "int") n := by
  have hrun : layered.expandFans.result = .ok ⟨4, 7, 11⟩ := by decide +kernel
  refine ⟨hrun, ?_⟩
  have hcarry := tree_nodes_carry (g := layered) (by decide) hrun
  have hid : "c_y_JOIN_0_2_in1_JOIN_0_1" ∈ layered.expandFans.graph.nodes.toList.map Node.id := by
    decide +kernel
  obtain ⟨n, hn, hid⟩ := List.mem_map.mp hid
  have hanchor : (⟨"c", "y"⟩ : Port) ∈ (layered.bundles .inward).map Bundle.anchor := by
    decide +kernel
  obtain ⟨b, hb, hanchor⟩ := List.mem_map.mp hanchor
  have hhangs : layered.HangsBelow layered.expandFans.graph .inward ⟨"c", "y"⟩
      "c_y_JOIN_0_2_in1_JOIN_0_1" :=
    .deeper (e := .between ⟨"c_y_JOIN_0_2_in1_JOIN_0_1", "to"⟩ ⟨"c_y_JOIN_0_2", "in1"⟩)
      (.top (e := .between ⟨"c_y_JOIN_0_2", "to"⟩ ⟨"c", "y"⟩) (by decide +kernel) rfl rfl
        (by decide +kernel))
      (by decide +kernel) (.inl rfl) rfl (by decide +kernel)
  rw [← hanchor, ← hid] at hhangs
  have hnew : layered.contains n.id = false := by
    rw [hid]
    decide +kernel
  obtain ⟨type, hcarries⟩ := (hcarry n hn hnew).2 .inward b hb hhangs
  have htype : type = .named "int" := by
    have hdeclared := declared_iff.mp hcarries.declared
    have hport : layered.portType? ⟨"c", "y"⟩ .input = some (.named "int") := by decide +kernel
    rw [hanchor] at hdeclared
    exact Option.some.inj (hdeclared.symm.trans hport)
  exact ⟨n, hn, hid, b, hb, hanchor, htype ▸ hcarries⟩

end Graph
end PortNet
