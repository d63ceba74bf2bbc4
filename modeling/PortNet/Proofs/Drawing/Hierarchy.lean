import PortNet.Proofs.Drawing.Reading

namespace PortNet

namespace Graph
open Drawing

/-- The ancestors of a node that are in the graph, the nearest first. -/
structure Ancestors (g : Graph) (id : NodeId) (as : List NodeId) : Prop where
  mem : ∀ a, a ∈ as ↔ a ∈ g.ids ∧ Relation.TransGen g.HasParent id a
  order : as.Pairwise (Relation.TransGen g.HasParent)
  nodup : as.Nodup

/-- The recursion from child to child ends below all nodes at the top level, and the depth that
outlines are limited to is never reached: they are what the recursion without a limit gives. -/
structure Descends (g : Graph) : Prop where
  ends : ∀ n ∈ g.nodes.toList, g.isTopLevel n = true → Acc (fun c m => c ∈ g.children m.id) n
  unlimited : ∀ n ∈ g.nodes.toList, g.Grounded n.id → ∀ depth, g.nodes.toList.length ≤ depth →
    g.outline depth n = .item n ((g.children n.id).map (g.outline depth))

/-- The node and edge statements of a drawing. A node from which the way up leads to the top has one
statement, in the clusters of its ancestors and, if it has children, its own. No other node has one.
The edges come in their order, outside of all clusters. -/
structure Draws (g : Graph) (entries : List Located) : Prop where
  once : ∀ n ∈ g.nodes.toList, g.Grounded n.id → ∃ as, g.Ancestors n.id as ∧
    entries.filter (fun e => e.statement = .node n.id) =
      [⟨(if (g.children n.id).isEmpty then as else n.id :: as).map cluster ++ [whole], .node n.id⟩]
  never : ∀ id, ¬ g.Grounded id → ∀ e ∈ entries, e.statement ≠ .node id
  edges : entries.filter (fun e => e.statement.isEdge) = g.edges.map locatedEdge

variable {g : Graph} {n m : Node} {as : List Node} {id : NodeId}

theorem Lineage.ancestors (h : g.Lineage n as) : g.Ancestors n.id (as.map Node.id) where
  mem a := by
    simp only [List.mem_map, h.mem_iff, ids]
    constructor
    · rintro ⟨m, ⟨hm, hpath⟩, rfl⟩
      exact ⟨⟨m, hm, rfl⟩, hpath⟩
    · rintro ⟨⟨m, hm, rfl⟩, hpath⟩
      exact ⟨m, ⟨hm, hpath⟩, rfl⟩
  order := List.pairwise_map.mpr h.pairwise
  nodup := (List.nodup_cons.mp h.nodup).2.map_on fun a ha b hb hid =>
    eq_of_id (h.mem_iff.mp ha).1 (h.mem_iff.mp hb).1 hid

theorem descends (g : Graph) : g.Descends where
  ends _ hn htop := (Lineage.top hn htop).acc
  unlimited _ hn hgrounded _ hdepth := by
    obtain ⟨as, h⟩ := (exists_lineage_iff hn).mpr hgrounded
    exact outline_eq h hdepth

theorem mem_nodes_of_mem_placements {p : List Node × Node} (hp : p ∈ g.placements) :
    p.2 ∈ g.nodes.toList := by
  obtain ⟨as, h, _⟩ := mem_placements_iff.mp hp
  exact h.mem

/-- The statements that are read of a drawing. -/
def statements (g : Graph) : List Located := g.placements.map locatedNode ++ g.edges.map locatedEdge

theorem filter_statements (h : g.Lineage n as) :
    g.statements.filter (fun e => e.statement = .node n.id) =
      [locatedNode (g.clustersOf n as, n)] := by
  have hkeys : (g.placements.map (fun p => p.2.id)).Nodup := by
    have hnodes := g.nodup_placements.map_on fun a ha b hb hid => by
      obtain ⟨p, hp, rfl⟩ := List.mem_map.mp ha
      obtain ⟨q, hq, rfl⟩ := List.mem_map.mp hb
      exact eq_of_id (mem_nodes_of_mem_placements hp) (mem_nodes_of_mem_placements hq) hid
    rwa [List.map_map] at hnodes
  have hnode := filter_eq_of_nodup_map hkeys (mem_placements_iff.mpr ⟨as, h, rfl⟩)
  have hedges : (g.edges.map locatedEdge).filter (fun e => e.statement = .node n.id) = [] := by
    simp [locatedEdge]
  rw [statements, List.filter_append, hedges, List.append_nil, List.filter_map]
  simpa [Function.comp_def, locatedNode] using congrArg (List.map locatedNode) hnode

theorem draws_statements (g : Graph) : g.Draws g.statements where
  once n hn hgrounded := by
    obtain ⟨as, h⟩ := (exists_lineage_iff hn).mpr hgrounded
    refine ⟨as.map Node.id, h.ancestors, ?_⟩
    rw [filter_statements h, locatedNode, clustersOf, blocksOf]
    split <;> simp
  never id hnot e he hid := by
    rcases List.mem_append.mp he with he | he
    · obtain ⟨p, hp, rfl⟩ := List.mem_map.mp he
      obtain ⟨as, h, _⟩ := mem_placements_iff.mp hp
      rw [← Statement.node.inj hid] at hnot
      exact hnot ((exists_lineage_iff h.mem).mp ⟨as, h⟩)
    · obtain ⟨e, _, rfl⟩ := List.mem_map.mp he
      cases hid
  edges := by
    have hnodes : (g.placements.map locatedNode).filter (fun e => e.statement.isEdge) = [] := by
      refine List.filter_eq_nil_iff.mpr fun e he => ?_
      obtain ⟨p, _, rfl⟩ := List.mem_map.mp he
      exact Bool.false_ne_true
    have hedges : ∀ e ∈ g.edges.map locatedEdge, e.statement.isEdge = true := by
      simp [locatedEdge, Statement.isEdge]
    rw [statements, List.filter_append, hnodes, List.nil_append, List.filter_eq_self.mpr hedges]

/-- A drawing shows the whole forest of nodes, each once and where it belongs, and then all edges.
Its braces are balanced, for else nothing could be read. What is left out are the nodes on and below
circles of parents, of which an accepted graph has none. -/
theorem draws_forest (g : Graph) : g.Descends ∧
    (∃ entries, read g.dot = some entries ∧ g.Draws entries ∧
      (Validator.structural.accepts g = true → ∀ n ∈ g.nodes.toList,
        (entries.filter (fun e => e.statement = .node n.id)).length = 1)) ∧
    (∀ n ∈ g.nodes.toList, ¬ g.Grounded n.id ↔
      ∃ a, Relation.ReflTransGen g.HasParent n.id a ∧ Relation.TransGen g.HasParent a a) ∧
    Function.Injective quoted := by
  have hdraws := g.draws_statements
  refine ⟨g.descends, ⟨g.statements, read_dot g, hdraws, fun hv n hn => ?_⟩, fun n hn => ?_,
    quoted_injective⟩
  · obtain ⟨as, _, honce⟩ := hdraws.once n hn ((accepts_iff.mp hv).grounded hn)
    rw [honce, List.length_singleton]
  · exact not_grounded_iff (List.mem_map.mpr ⟨n, hn, rfl⟩)

/-- Two nodes that are the parents of each other, one below them, a node whose parent is missing,
and one inside it whose name has to be escaped. -/
def entangled : Graph where
  nodes := .ofList [
    .build "p" {} (.inside "q"), .build "q" {} (.inside "p"), .build "x" {} (.inside "q"),
    .build "d" {} (.inside "gone"), .build "\"\\\n;\x7d" {} (.inside "d")]
  edges := [.between ⟨"x", "o"⟩ ⟨"d", "i"⟩]

/-- Three nodes with one child each. -/
def homographs : Graph where
  nodes := .ofList [.build "a.b" {} .unstated, .build "a_b" {} .unstated, .build "ab" {} .unstated,
    .build "x" {} (.inside "a.b"), .build "y" {} (.inside "a_b"), .build "z" {} (.inside "ab")]

/-- The two circular nodes and the one below them are left out, and the last node is in the cluster
of the one before it. Of the second graph nothing is left out. -/
theorem draws_forest_entangled : (∃ entries, read entangled.dot = some entries ∧
    (∀ id ∈ ["p", "q", "x"], ∀ e ∈ entries, e.statement ≠ .node id) ∧
    entries.filter (fun e => e.statement = .node "\"\\\n;\x7d") =
      [⟨[cluster "d", whole], .node "\"\\\n;\x7d"⟩]) ∧
    ∃ entries, read homographs.dot = some entries ∧ ∀ n ∈ homographs.nodes.toList,
      (entries.filter (fun e => e.statement = .node n.id)).length = 1 := by
  obtain ⟨_, ⟨entries, hread, hdraws, _⟩, hcircles, _⟩ := draws_forest entangled
  obtain ⟨_, ⟨all, hreadAll, _, honce⟩, _⟩ := draws_forest homographs
  have hids : ∀ id ∈ ["p", "q", "x"], id ∈ entangled.ids := by decide
  refine ⟨⟨entries, hread, fun id hid => ?_, ?_⟩, all, hreadAll, honce (by decide)⟩
  · have hpq : entangled.HasParent "p" "q" := rfl
    have hqp : entangled.HasParent "q" "p" := rfl
    have hxq : entangled.HasParent "x" "q" := rfl
    have hcircle : Relation.TransGen entangled.HasParent "q" "q" := .tail (.single hqp) hpq
    have hup : Relation.ReflTransGen entangled.HasParent id "q" := by
      simp only [List.mem_cons, List.not_mem_nil, or_false] at hid
      rcases hid with rfl | rfl | rfl
      · exact .single hpq
      · exact .refl
      · exact .single hxq
    obtain ⟨n, hn, rfl⟩ := List.mem_map.mp (hids id hid)
    exact hdraws.never n.id ((hcircles n hn).mpr ⟨"q", hup, hcircle⟩)
  · have hinside : entangled.Lineage (.build "\"\\\n;\x7d" {} (.inside "d"))
        [.build "d" {} (.inside "gone")] :=
      .child (.top (by decide) (by decide)) (by decide)
    have hgrounded := (exists_lineage_iff hinside.mem).mp ⟨_, hinside⟩
    obtain ⟨as, has, hdrawn⟩ := hdraws.once _ hinside.mem hgrounded
    have hperm := (List.perm_ext_iff_of_nodup has.nodup hinside.ancestors.nodup).mpr
      fun a => (has.mem a).trans (hinside.ancestors.mem a).symm
    rw [List.perm_singleton.mp hperm] at hdrawn
    exact hdrawn

/-- A drawing has a cluster under some name for a node: the innermost one around its statement, and
labelled with its id. -/
def Names (entries : List Located) (id : NodeId) (name : String) : Prop :=
  ∃ e ∈ entries, e.statement = .node id ∧ e.within.head? = some ⟨some name, some id⟩

/-- Characters that stay the same in the name of a cluster, or both become underscores. -/
def Blurred (c d : Char) : Prop := c = d ∨ c.isAlphanum = false ∧ d.isAlphanum = false

theorem blurred_iff {c d : Char} : (if c.isAlphanum then c else '_') =
    (if d.isAlphanum then d else '_') ↔ Blurred c d := by
  have hunderscore : '_'.isAlphanum = false := by decide
  split_ifs with hc hd hd
  · simp [Blurred, hc]
  · have hsame : c ≠ d := fun h => hd (h ▸ hc)
    have hmark : c ≠ '_' := fun h => by simp [h, hunderscore] at hc
    simp [Blurred, hc, hsame, hmark]
  · have hsame : c ≠ d := fun h => hc (h ▸ hd)
    have hmark : '_' ≠ d := fun h => by simp [← h, hunderscore] at hd
    simp [Blurred, hd, hsame, hmark]
  · simp [Blurred, hc, hd]

theorem sanitized_eq_iff {s t : String} :
    sanitized s = sanitized t ↔ List.Forall₂ Blurred s.toList t.toList := by
  rw [← String.toList_inj, sanitized, sanitized, String.toList_map, String.toList_map,
    ← List.forall₂_eq_eq_eq, List.forall₂_map_left_iff, List.forall₂_map_right_iff]
  simp only [blurred_iff]

theorem names_iff (hg : g.WellFormed) (hn : n ∈ g.nodes.toList) (hc : g.children n.id ≠ [])
    {name : String} : Names g.statements n.id name ↔ name = "cluster_" ++ sanitized n.id := by
  obtain ⟨as, h⟩ := (exists_lineage_iff hn).mpr (hg.grounded hn)
  have hfilter := filter_statements h
  have hhead : (locatedNode (g.clustersOf n as, n)).within.head? = some (cluster n.id) := by
    rw [locatedNode, clustersOf, if_neg (by simpa using hc)]
    rfl
  constructor
  · rintro ⟨e, he, hid, hname⟩
    have hmem : e ∈ g.statements.filter (fun e => e.statement = .node n.id) :=
      List.mem_filter.mpr ⟨he, decide_eq_true hid⟩
    rw [hfilter, List.mem_singleton] at hmem
    rw [hmem, hhead, cluster] at hname
    simpa using hname.symm
  · rintro rfl
    have hmem : locatedNode (g.clustersOf n as, n) ∈ g.statements.filter
        (fun e => e.statement = .node n.id) := by
      rw [hfilter]
      exact List.mem_singleton.mpr rfl
    exact ⟨_, (List.mem_filter.mp hmem).1, rfl, hhead⟩

/-- Each node with children has a cluster under one name. Two of them have it under the same name
exactly if their ids differ in nothing but characters that are no letters and no digits. -/
theorem shared_name_iff (hv : Validator.structural.accepts g = true) :
    ∃ entries, read g.dot = some entries ∧
      ∀ n ∈ g.nodes.toList, g.children n.id ≠ [] → ∀ m ∈ g.nodes.toList, g.children m.id ≠ [] →
        ∃ s t, (∀ name, Names entries n.id name ↔ name = s) ∧
          (∀ name, Names entries m.id name ↔ name = t) ∧
            (s = t ↔ List.Forall₂ Blurred n.id.toList m.id.toList) := by
  have hg := accepts_iff.mp hv
  refine ⟨g.statements, read_dot g, fun n hn hnc m hm hmc => ?_⟩
  refine ⟨_, _, fun _ => names_iff hg hn hnc, fun _ => names_iff hg hm hmc, ?_⟩
  rw [String.append_right_inj, sanitized_eq_iff]

theorem shared_name_iff_homographs : ∃ entries, read homographs.dot = some entries ∧
    ∃ s t, Names entries "a.b" s ∧ Names entries "ab" t ∧ s ≠ t := by
  obtain ⟨entries, hread, hnames⟩ := shared_name_iff (g := homographs) (by decide)
  obtain ⟨s, t, hs, ht, hiff⟩ := hnames (.build "a.b" {} .unstated) (by decide) (by decide)
    (.build "ab" {} .unstated) (by decide) (by decide)
  refine ⟨entries, hread, s, t, (hs s).mpr rfl, (ht t).mpr rfl, fun hsame => ?_⟩
  have hlength := (hiff.mp hsame).length_eq
  exact absurd hlength (by decide)

/-- The graph is accepted, and two of its nodes have their clusters under one name. -/
theorem names_homographs : Validator.structural.accepts homographs = true ∧
    homographs.children "a.b" ≠ [] ∧ homographs.children "a_b" ≠ [] ∧
    ∃ entries, read homographs.dot = some entries ∧
      Names entries "a.b" "cluster_a_b" ∧ Names entries "a_b" "cluster_a_b" := by
  have hv : Validator.structural.accepts homographs = true := by decide
  have hg := accepts_iff.mp hv
  have hname : ∀ id ∈ ["a.b", "a_b"], "cluster_a_b" = "cluster_" ++ sanitized id := by
    simp only [← String.toList_inj, String.toList_append, sanitized, String.toList_map]
    decide
  refine ⟨hv, by decide, by decide, _, read_dot homographs, ?_, ?_⟩
  · exact (names_iff (n := .build "a.b" {} .unstated) hg (by decide) (by decide)).mpr
      (hname _ (by decide))
  · exact (names_iff (n := .build "a_b" {} .unstated) hg (by decide) (by decide)).mpr
      (hname _ (by decide))

end Graph
end PortNet
