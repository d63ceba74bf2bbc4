import PortNet.Proofs.Fan.Reading

namespace PortNet

/-- What a tree from a port to a list of peers has to be. Each of its ports carries one edge, and so
does the root. The edges that leave it lead to the peers in their order, whether they are taken as
they were emitted or read off from left to right, and there is one way down to each. -/
structure Routed (d : Direction) (root : Port) (peers : List Port) (b : Batch) : Prop where
  nodes : b.nodes.length + 1 = peers.length
  edges : b.edges.length + 1 = 2 * peers.length
  trunk : ∀ id ∈ b.ids, (b.edges.map d.far).count ⟨id, d.trunk⟩ = 1
  branch : ∀ id ∈ b.ids, ∀ name ∈ [d.branches.1, d.branches.2],
    (b.edges.map d.near).count ⟨id, name⟩ = 1
  start : (b.edges.map d.near).count root = 1
  leaf : (b.leafEdges d).map d.far = peers
  reading : ∀ es, Reads d b.edges b.ids.contains root es ↔ es = b.leafEdges d
  path : ∀ i < peers.length, ∃! path, Descent d b.edges b.ids.contains root path ∧
    path.getLast? = (b.leafEdges d)[i]?

/-- The port of a join that corresponds to one of a duplicate. -/
def mirroredName (name : PortName) : PortName :=
  if name = "in" then "to" else if name = "d1" then "in1" else if name = "d2" then "in2" else name

/-- The port that stands for `p` on the other side of a mirror: on a node of `b` it is the
corresponding port of the node at the same place in `c`; any other port stands for itself. -/
def Batch.counterpart (b c : Batch) (p : Port) : Port :=
  match c.ids[b.ids.idxOf p.node]? with
  | some id => ⟨id, mirroredName p.name⟩
  | none => p

/-- A duplicate and a join over the same leaves. -/
def SameSpan (duplicate join : NodeId) : Prop :=
  ∃ p q first last, duplicate = Synthesis.twoWayId .outward p first last ∧
    join = Synthesis.twoWayId .inward q first last

/-- Node by node the same ranges of leaves, and edge by edge the same wires turned around. -/
structure Mirrored (duplicates joins : Batch) : Prop where
  spans : List.Forall₂ SameSpan duplicates.ids joins.ids
  edges : joins.edges = duplicates.edges.map (fun e =>
    .between (duplicates.counterpart joins e.target) (duplicates.counterpart joins e.source))

namespace FanTree
variable {d : Direction} {root : FanRoot} {t : FanTree}

theorem embedded_batch (t : FanTree) (d : Direction) (root : FanRoot) :
    Embedded t d root (t.batch d root).edges (t.batch d root).ids.contains where
  edge _ he := he
  node _ hid := List.contains_iff_mem.mpr hid

theorem count_trunk (hoff : ∀ p ∈ t.leaves, p.node ∉ (t.batch d root).ids) {id : NodeId}
    (hid : id ∈ (t.batch d root).ids) :
    ((t.batch d root).edges.map d.far).count ⟨id, d.trunk⟩ = 1 := by
  obtain ⟨n, hn, rfl⟩ := List.mem_map.mp hid
  have hports : n.portsOn d.side.opposite = [⟨n.id, d.trunk⟩] := by
    rw [eq_twoWay_of_mem_batch hn, Synthesis.portsOn_twoWay_opposite, Synthesis.id_twoWay]
  have hleaf : (⟨n.id, d.trunk⟩ : Port) ∉ t.leaves := fun hp => hoff _ hp hid
  have hnodup := Node.nodup_flatMap_portsOn (List.nodup_cons.mp (nodup_ids_batch t d root)).2
    d.side.opposite
  rw [(perm_far_batch t d root).count_eq, List.count_append, List.count_eq_zero_of_not_mem hleaf,
    Nat.zero_add]
  refine List.count_eq_one_of_mem hnodup (List.mem_flatMap.mpr ⟨n, hn, ?_⟩)
  rw [hports]
  exact List.mem_singleton.mpr rfl

theorem count_near {p : Port} (hp : p ∈ root.port ::
    (t.batch d root).nodes.flatMap (fun n => n.portsOn d.side)) :
    ((t.batch d root).edges.map d.near).count p = 1 :=
  List.count_eq_one_of_mem (nodup_near_batch t d root) ((perm_near_batch t d root).mem_iff.mpr hp)

theorem contains_eq_false (hoff : ∀ p ∈ t.leaves, p.node ∉ (t.batch d root).ids) :
    ∀ p ∈ t.leaves, (t.batch d root).ids.contains p.node = false := by
  intro p hp
  rw [Bool.eq_false_iff, Ne, List.contains_iff_mem]
  exact hoff p hp

/-- With its peers outside, the edges that leave a tree are those to its leaves. -/
theorem leafEdges_batch (hoff : ∀ p ∈ t.leaves, p.node ∉ (t.batch d root).ids) :
    (t.batch d root).leafEdges d = t.leafEdges d root :=
  filter_edges_batch (embedded_batch t d root).node (contains_eq_false hoff)

/-- The way down to a leaf and the edge that it ends with. -/
theorem exists_descent (t : FanTree) (d : Direction) (root : FanRoot) {i : Nat}
    (hi : i < t.leaves.length) : ∃ path e,
    (t.descents d root)[i]? = some path ∧ (t.leafEdges d root)[i]? = some e ∧
      path.getLast? = some e ∧ t.leaves[i]? = some (d.far e) := by
  have hpath : i < (t.descents d root).length := by rwa [length_descents]
  have hedge : i < (t.leafEdges d root).length := by rwa [length_leafEdges]
  have hlast := congrArg (fun xs => xs[i]?) (map_getLast?_descents t d root)
  have hfar := congrArg (fun xs => xs[i]?) (map_far_leafEdges t d root)
  simp only [List.getElem?_map, List.getElem?_eq_getElem hpath, List.getElem?_eq_getElem hedge,
    Option.map_some, Option.some.injEq] at hlast hfar
  exact ⟨_, _, List.getElem?_eq_getElem hpath, List.getElem?_eq_getElem hedge, hlast, hfar.symm⟩

/-- With its peers outside, a tree has one way down to each leaf. -/
theorem existsUnique_descent (hoff : ∀ p ∈ t.leaves, p.node ∉ (t.batch d root).ids) {i : Nat}
    (hi : i < t.leaves.length) : ∃! path, Descent d (t.batch d root).edges
      (t.batch d root).ids.contains root.port path ∧ path.getLast? = (t.leafEdges d root)[i]? := by
  obtain ⟨path, e, hpath, hedge, hlast, hleaf⟩ := exists_descent t d root hi
  have hnear := nodup_near_batch t d root
  have hlasts : ((t.descents d root).map List.getLast?).Nodup := by
    rw [map_getLast?_descents, ← leafEdges_batch hoff]
    exact ((hnear.of_map _).filter _).map fun _ _ => Option.some.inj
  rw [hedge]
  have hmem := List.mem_of_getElem? hpath
  refine ⟨path, ⟨descent_of_mem_descents (embedded_batch t d root) hmem, hlast⟩, ?_⟩
  intro other hother
  obtain ⟨hdown, hend⟩ := hother
  have hmem' := mem_descents_of_descent hnear (embedded_batch t d root) (contains_eq_false hoff)
    hdown hend (contains_eq_false hoff _ (List.mem_of_getElem? hleaf))
  exact List.inj_on_of_nodup_map hlasts hmem' hmem (hend.trans hlast.symm)

theorem routed_batch (hoff : ∀ p ∈ t.leaves, p.node ∉ (t.batch d root).ids) :
    Routed d root.port t.leaves (t.batch d root) where
  nodes := by
    rw [← length_ids_batch t d root, Batch.ids, List.length_map]
  edges := length_edges_batch t d root
  trunk id hid := count_trunk hoff hid
  branch id hid name hname := by
    obtain ⟨n, hn, rfl⟩ := List.mem_map.mp hid
    refine count_near (List.mem_cons_of_mem _ (List.mem_flatMap.mpr ⟨n, hn, ?_⟩))
    rw [portsOn_of_mem_batch hn]
    rcases List.mem_pair.mp hname with rfl | rfl
    · exact List.mem_cons_self
    · exact List.mem_cons_of_mem _ List.mem_cons_self
  start := count_near List.mem_cons_self
  leaf := by rw [leafEdges_batch hoff, map_far_leafEdges]
  reading es := by
    have hread := reads_leafEdges (embedded_batch t d root) (contains_eq_false hoff)
    rw [leafEdges_batch hoff]
    exact ⟨fun h => h.unique (nodup_near_batch t d root) hread, fun h => h ▸ hread⟩
  path i hi := by
    rw [leafEdges_batch hoff]
    exact existsUnique_descent hoff hi

/-- The two directions number the leaves below their nodes alike. -/
theorem forall₂_sameSpan (t : FanTree) (r r' : FanRoot) :
    List.Forall₂ SameSpan (t.batch .outward r).ids (t.batch .inward r').ids := by
  induction t generalizing r r' with
  | leaf peer => exact .nil
  | fork first last left right ihl ihr =>
    rw [ids_batch_fork, ids_batch_fork]
    exact .cons ⟨r.port, r'.port, first, last, rfl, rfl⟩ (List.rel_append (ihl _ _) (ihr _ _))

/-- Turning the wires of a duplicate tree around gives the join tree, if the ports of its nodes are
renamed and all others kept. -/
theorem edges_batch_inward {σ : Port → Port} {r r' : FanRoot} (hroot : σ r.port = r'.port)
    (hleaf : ∀ p ∈ t.leaves, σ p = p)
    (hnode : ∀ pair ∈ (t.batch .outward r).ids.zip (t.batch .inward r').ids,
      ∀ name, σ ⟨pair.1, name⟩ = ⟨pair.2, mirroredName name⟩) :
    (t.batch .inward r').edges =
      (t.batch .outward r).edges.map (fun e => .between (σ e.target) (σ e.source)) := by
  induction t generalizing r r' with
  | leaf peer =>
    have hpeer := hleaf peer (List.mem_singleton.mpr rfl)
    simp only [batch, List.map_singleton, Direction.connect, Edge.between, hroot, hpeer]
  | fork first last left right ihl ihr =>
    obtain ⟨hleafl, hleafr⟩ := List.forall_mem_append.mp hleaf
    rw [ids_batch_fork, ids_batch_fork, List.zip_cons_cons,
      List.zip_append (forall₂_sameSpan left _ _).length_eq] at hnode
    obtain ⟨htop, hnode⟩ := List.forall_mem_cons.mp hnode
    obtain ⟨hnodel, hnoder⟩ := List.forall_mem_append.mp hnode
    have hl := ihl (htop _) hleafl hnodel
    have hr := ihr (htop _) hleafr hnoder
    have htrunk : Direction.inward.connect r'.port ⟨forkId .inward r' first last, "to"⟩ =
        .between (σ ⟨forkId .outward r first last, "in"⟩) (σ r.port) := by
      rw [htop, hroot]
      rfl
    rw [batch_fork, batch_fork, List.map_append, List.map_append, List.map_singleton]
    exact congrArg₂ (· ++ ·) (congrArg₂ (· ++ ·) hl hr) (congrArg (fun e => [e]) htrunk)

end FanTree

namespace Batch
variable {b c : Batch} {p : Port}

theorem counterpart_of_not_mem (hlength : c.ids.length ≤ b.ids.length) (hp : p.node ∉ b.ids) :
    b.counterpart c p = p := by
  rw [counterpart, List.idxOf_eq_length hp, List.getElem?_eq_none hlength]

theorem counterpart_of_mem_zip (hn : b.ids.Nodup) {pair : NodeId × NodeId}
    (hpair : pair ∈ b.ids.zip c.ids) (name : PortName) :
    b.counterpart c ⟨pair.1, name⟩ = ⟨pair.2, mirroredName name⟩ := by
  obtain ⟨i, hi, rfl⟩ := List.mem_iff_getElem.mp hpair
  rw [List.length_zip, Nat.lt_min] at hi
  simp only [counterpart, List.getElem_zip, hn.idxOf_getElem i hi.1,
    List.getElem?_eq_getElem hi.2]

end Batch

namespace FanTree

theorem mirrored_batch {t : FanTree} {r r' : FanRoot}
    (hoff : ∀ p ∈ t.leaves, p.node ∉ (t.batch .outward r).ids) (hroot : r.port = r'.port) :
    Mirrored (t.batch .outward r) (t.batch .inward r') := by
  have hspans := forall₂_sameSpan t r r'
  have hlength := Nat.le_of_eq hspans.length_eq.symm
  obtain ⟨hout, hids⟩ := List.nodup_cons.mp (nodup_ids_batch t .outward r)
  refine ⟨hspans, edges_batch_inward ?_ ?_ fun pair hpair => Batch.counterpart_of_mem_zip hids hpair⟩
  · rw [Batch.counterpart_of_not_mem hlength hout, hroot]
  · exact fun p hp => Batch.counterpart_of_not_mem hlength (hoff p hp)

end FanTree

namespace Direction

/-- Whatever the root and the peers are, if no peer is on a node of the tree, then it routes each of
them exactly once and in order; and a join tree is the mirror image of the duplicate tree. -/
theorem routed_tree (root : FanRoot) {peers : List Port} (hne : peers ≠ []) :
    ∃ trees : Direction → Batch, (∀ d : Direction, d.tree root peers = .ok (trees d)) ∧
      (∀ d, (∀ p ∈ peers, p.node ∉ (trees d).ids) → Routed d root.port peers (trees d)) ∧
      ((∀ p ∈ peers, p.node ∉ (trees .outward).ids) →
        Mirrored (trees .outward) (trees .inward)) := by
  obtain ⟨t, ht, hleaves⟩ := FanTree.exists_balanced? 0 peers hne
  subst hleaves
  refine ⟨fun d => t.batch d root, fun d => by rw [tree, ht], fun d hoff => ?_, fun hoff => ?_⟩
  · exact FanTree.routed_batch hoff
  · exact FanTree.mirrored_batch hoff rfl

/-- An output and five inputs to route it to, one of which comes twice and one of which is on the
node of the output. -/
def sharedOutput : FanRoot := ⟨⟨"A", "o"⟩, .named "t", none⟩

def fivePeers : List Port := [⟨"S", "i"⟩, ⟨"T", "i"⟩, ⟨"S", "i"⟩, ⟨"U", "i"⟩, ⟨"A", "i"⟩]

theorem routed_tree_five : ∃ trees : Direction → Batch,
    (trees .outward).ids = ["A_o_DUPLICATE_0_4", "A_o_DUPLICATE_0_4_d1_DUPLICATE_0_2",
      "A_o_DUPLICATE_0_4_d1_DUPLICATE_0_2_d1_DUPLICATE_0_1",
      "A_o_DUPLICATE_0_4_d2_DUPLICATE_3_4"] ∧
    (∀ d, Routed d ⟨"A", "o"⟩ fivePeers (trees d)) ∧
    Mirrored (trees .outward) (trees .inward) := by
  have hne : fivePeers ≠ [] := by decide
  obtain ⟨trees, hok, hrouted, hmirrored⟩ := routed_tree sharedOutput hne
  have hids : ∀ d : Direction, (trees d).ids =
      ((d.tree sharedOutput fivePeers).toOption.map Batch.ids).getD [] := fun d => by
    rw [hok]
    rfl
  have hoff : ∀ d, ∀ p ∈ fivePeers, p.node ∉ (trees d).ids := by
    intro d
    rw [hids]
    cases d <;> decide +kernel
  refine ⟨trees, ?_, fun d => hrouted d (hoff d), hmirrored (hoff _)⟩
  rw [hids]
  decide +kernel

end Direction
end PortNet
