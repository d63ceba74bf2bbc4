import Mathlib.Data.List.Perm.Basic
import PortNet.Fan.Tree
import PortNet.Proofs.Fan.Detection

namespace PortNet

namespace Direction
variable {d : Direction}

@[simp] theorem near_connect (d : Direction) (near far : Port) :
    d.near (d.connect near far) = near := by
  cases d <;> rfl

@[simp] theorem far_connect (d : Direction) (near far : Port) :
    d.far (d.connect near far) = far := by
  cases d <;> rfl

@[simp] theorem isContinuation_connect (d : Direction) (near far : Port) :
    (d.connect near far).isContinuation = false := by
  cases d <;> rfl

end Direction

namespace Synthesis
variable (d : Direction) (id : NodeId) (type : PortType) (scope : Option NodeId)

@[simp] theorem id_twoWay : (twoWay d id type scope).id = id := by
  cases d <;> rfl

@[simp] theorem parent?_twoWay : (twoWay d id type scope).parent? = scope := by
  cases d <;> cases scope <;> rfl

/-- The ports of a two-way node on the side of its fan face the leaves. -/
theorem portsOn_twoWay_side : (twoWay d id type scope).portsOn d.side =
    [⟨id, d.branches.1⟩, ⟨id, d.branches.2⟩] := by
  cases d <;> rfl

/-- The one port on its other side faces the root. -/
theorem portsOn_twoWay_opposite :
    (twoWay d id type scope).portsOn d.side.opposite = [⟨id, d.trunk⟩] := by
  cases d <;> rfl

end Synthesis

namespace FanTree
variable {d : Direction} {root : FanRoot} {t : FanTree} {e : Edge}

/-- Any nonempty list of peers has a balanced tree, whose leaves are the peers in their order. -/
theorem exists_balanced? (first : Nat) (peers : List Port) (h : peers ≠ []) :
    ∃ t, balanced? first peers = some t ∧ t.leaves = peers := by
  induction first, peers using balanced?.induct with
  | case1 => exact absurd rfl h
  | case2 first peer => exact ⟨.leaf peer, by simp [balanced?], rfl⟩
  | case3 first p q peers all last left ihl ihr =>
    have hall : all.length = peers.length + 2 := rfl
    have hleft : left = (first + (first + peers.length + 1)) / 2 - first + 1 := rfl
    have htake : all.take left ≠ [] := by
      rw [Ne, List.take_eq_nil_iff]
      intro hall
      rcases hall with h0 | h0
      · omega
      · exact List.cons_ne_nil _ _ h0
    have hdrop : all.drop left ≠ [] := by
      rw [Ne, List.drop_eq_nil_iff]
      omega
    obtain ⟨l, hl, hll⟩ := ihl htake
    obtain ⟨r, hr, hrl⟩ := ihr hdrop
    refine ⟨.fork first last l r, ?_, ?_⟩
    · simp only [balanced?]
      rw [hl, hr]
      rfl
    · rw [leaves, hll, hrl]
      exact List.take_append_drop left all

/-- The balanced tree over a list of peers, numbered from zero. -/
def spanning (peers : List Port) : FanTree := (balanced? 0 peers).getD (.leaf default)

theorem balanced?_eq_spanning {peers : List Port} (h : peers ≠ []) :
    balanced? 0 peers = some (spanning peers) := by
  obtain ⟨t, ht, _⟩ := exists_balanced? 0 peers h
  simp [spanning, ht]

theorem tree_eq_spanning {peers : List Port} (h : peers ≠ []) (d : Direction) (root : FanRoot) :
    d.tree root peers = .ok ((spanning peers).batch d root) := by
  rw [Direction.tree, balanced?_eq_spanning h]

theorem leaves_spanning {peers : List Port} (h : peers ≠ []) : (spanning peers).leaves = peers := by
  obtain ⟨t, ht, hl⟩ := exists_balanced? 0 peers h
  simp [spanning, ht, hl]

theorem spanning_ne_leaf {peers : List Port} (h : 2 ≤ peers.length) (p : Port) :
    spanning peers ≠ .leaf p := by
  intro hp
  have hne : peers ≠ [] := List.ne_nil_of_length_pos (by omega)
  have hleaves := leaves_spanning hne
  rw [hp, leaves] at hleaves
  rw [← hleaves] at h
  simp at h

/-- The id of the node at the top of a fork. -/
def forkId (d : Direction) (root : FanRoot) (first last : Nat) : NodeId :=
  Synthesis.twoWayId d root.port first last

theorem batch_fork (first last : Nat) (left right : FanTree) :
    (fork first last left right).batch d root =
      ⟨Synthesis.twoWay d (forkId d root first last) root.type root.scope ::
          ((left.batch d (root.branch (forkId d root first last) d.branches.1)).nodes ++
            (right.batch d (root.branch (forkId d root first last) d.branches.2)).nodes),
        (left.batch d (root.branch (forkId d root first last) d.branches.1)).edges ++
          (right.batch d (root.branch (forkId d root first last) d.branches.2)).edges ++
            [d.connect root.port ⟨forkId d root first last, d.trunk⟩]⟩ := rfl

theorem ids_batch_fork (first last : Nat) (left right : FanTree) :
    ((fork first last left right).batch d root).ids = forkId d root first last ::
      ((left.batch d (root.branch (forkId d root first last) d.branches.1)).ids ++
        (right.batch d (root.branch (forkId d root first last) d.branches.2)).ids) := by
  rw [batch_fork, Batch.ids, List.map_cons, List.map_append, Synthesis.id_twoWay]
  rfl

theorem length_ids_batch (t : FanTree) (d : Direction) (root : FanRoot) :
    (t.batch d root).ids.length + 1 = t.leaves.length := by
  induction t generalizing root with
  | leaf peer => rfl
  | fork first last left right ihl ihr =>
    have hl := ihl (root.branch (forkId d root first last) d.branches.1)
    have hr := ihr (root.branch (forkId d root first last) d.branches.2)
    rw [ids_batch_fork, leaves, List.length_cons, List.length_append, List.length_append]
    omega

theorem length_edges_batch (t : FanTree) (d : Direction) (root : FanRoot) :
    (t.batch d root).edges.length + 1 = 2 * t.leaves.length := by
  induction t generalizing root with
  | leaf peer => rfl
  | fork first last left right ihl ihr =>
    have hl := ihl (root.branch (forkId d root first last) d.branches.1)
    have hr := ihr (root.branch (forkId d root first last) d.branches.2)
    simp only [batch_fork, leaves, List.length_append, List.length_singleton]
    omega

/-- The tree over some peers has one node less than there are peers. -/
theorem length_ids_spanning {peers : List Port} (hne : peers ≠ []) (d : Direction)
    (root : FanRoot) : ((spanning peers).batch d root).ids.length + 1 = peers.length := by
  rw [length_ids_batch, leaves_spanning hne]

/-- Every node of a tree is a two-way node with the type and the scope of the root. -/
theorem eq_twoWay_of_mem_batch {n : Node} (h : n ∈ (t.batch d root).nodes) :
    n = Synthesis.twoWay d n.id root.type root.scope := by
  induction t generalizing root with
  | leaf peer => simp [batch] at h
  | fork first last left right ihl ihr =>
    rw [batch_fork, List.mem_cons, List.mem_append] at h
    rcases h with rfl | h | h
    · rw [Synthesis.id_twoWay]
    · have hn := ihl h
      exact hn
    · have hn := ihr h
      exact hn

theorem portsOn_of_mem_batch {n : Node} (h : n ∈ (t.batch d root).nodes) :
    n.portsOn d.side = [⟨n.id, d.branches.1⟩, ⟨n.id, d.branches.2⟩] := by
  have hports := Synthesis.portsOn_twoWay_side d n.id root.type root.scope
  rwa [← eq_twoWay_of_mem_batch h] at hports

/-- Every edge of a tree is a plain one. -/
theorem exists_connect_of_mem_batch (h : e ∈ (t.batch d root).edges) :
    ∃ near far, e = d.connect near far := by
  induction t generalizing root with
  | leaf peer =>
    rw [batch, List.mem_singleton] at h
    exact ⟨_, _, h⟩
  | fork first last left right ihl ihr =>
    rw [batch_fork, List.mem_append, List.mem_append, List.mem_singleton] at h
    rcases h with (h | h) | h
    · exact ihl h
    · exact ihr h
    · exact ⟨_, _, h⟩

/-- The near ends of the edges of a tree are the root and every branch port, each once. -/
theorem perm_near_batch (t : FanTree) (d : Direction) (root : FanRoot) :
    ((t.batch d root).edges.map d.near).Perm
      (root.port :: (t.batch d root).nodes.flatMap (fun n => n.portsOn d.side)) := by
  induction t generalizing root with
  | leaf peer => simp [batch]
  | fork first last left right ihl ihr =>
    apply List.perm_iff_count.mpr
    intro p
    have hl := (ihl (root.branch (forkId d root first last) d.branches.1)).count_eq p
    have hr := (ihr (root.branch (forkId d root first last) d.branches.2)).count_eq p
    simp only [batch_fork, List.map_append, List.map_cons, List.map_nil, Direction.near_connect,
      List.flatMap_cons, List.flatMap_append, Synthesis.portsOn_twoWay_side, List.count_append,
      List.count_cons, List.count_nil, FanRoot.branch] at hl hr ⊢
    omega

/-- The far ends are the leaves and every trunk port, each once. -/
theorem perm_far_batch (t : FanTree) (d : Direction) (root : FanRoot) :
    ((t.batch d root).edges.map d.far).Perm
      (t.leaves ++ (t.batch d root).nodes.flatMap (fun n => n.portsOn d.side.opposite)) := by
  induction t generalizing root with
  | leaf peer => simp [batch, leaves]
  | fork first last left right ihl ihr =>
    apply List.perm_iff_count.mpr
    intro p
    have hl := (ihl (root.branch (forkId d root first last) d.branches.1)).count_eq p
    have hr := (ihr (root.branch (forkId d root first last) d.branches.2)).count_eq p
    simp only [batch_fork, leaves, List.map_append, List.map_cons, List.map_nil,
      Direction.far_connect, List.flatMap_cons, List.flatMap_append,
      Synthesis.portsOn_twoWay_opposite, List.count_append, List.count_cons, List.count_nil]
      at hl hr ⊢
    omega

/-- An edge of a tree starts at the root or at a port of one of its nodes. -/
theorem near_of_mem_edges (h : e ∈ (t.batch d root).edges) :
    d.near e = root.port ∨ ∃ n ∈ (t.batch d root).nodes, d.near e ∈ n.portsOn d.side := by
  have hm := (perm_near_batch t d root).mem_iff.mp (List.mem_map.mpr ⟨e, h, rfl⟩)
  rcases List.mem_cons.mp hm with hr | hp
  · exact .inl hr
  · exact .inr (List.mem_flatMap.mp hp)

/-- It ends at a leaf or at a port of one of them. -/
theorem far_of_mem_edges (h : e ∈ (t.batch d root).edges) :
    d.far e ∈ t.leaves ∨ ∃ n ∈ (t.batch d root).nodes, d.far e ∈ n.portsOn d.side.opposite := by
  have hm := (perm_far_batch t d root).mem_iff.mp (List.mem_map.mpr ⟨e, h, rfl⟩)
  rcases List.mem_append.mp hm with hl | hp
  · exact .inl hl
  · exact .inr (List.mem_flatMap.mp hp)

theorem near_of_mem_batch (h : e ∈ (t.batch d root).edges) :
    d.near e = root.port ∨ (d.near e).node ∈ (t.batch d root).ids := by
  rcases near_of_mem_edges h with hr | ⟨n, hn, hp⟩
  · exact .inl hr
  · exact .inr (List.mem_map.mpr ⟨n, hn, (Node.node_of_mem_portsOn hp).symm⟩)

/-- Every edge of a fork touches one of its nodes. -/
theorem touches_of_mem_batch (ht : ∀ p, t ≠ .leaf p) (h : e ∈ (t.batch d root).edges) :
    (d.near e).node ∈ (t.batch d root).ids ∨ (d.far e).node ∈ (t.batch d root).ids := by
  cases t with
  | leaf peer => exact absurd rfl (ht peer)
  | fork first last left right =>
    rw [batch_fork, List.mem_append, List.mem_append, List.mem_singleton] at h
    simp only [ids_batch_fork, List.mem_cons, List.mem_append]
    rcases h with (h | h) | rfl
    · rcases near_of_mem_batch h with hr | hm
      · exact .inl (.inl (by rw [hr]; rfl))
      · exact .inl (.inr (.inl hm))
    · rcases near_of_mem_batch h with hr | hm
      · exact .inl (.inl (by rw [hr]; rfl))
      · exact .inl (.inr (.inr hm))
    · exact .inr (.inl (by simp))

/-- With distinct ids that none of the peers uses, no edge of a tree is a self-loop. -/
theorem near_node_ne_far_node (hleaf : ∀ p, t = .leaf p → root.port.node ≠ p.node)
    (hids : (root.port.node :: (t.batch d root).ids).Nodup)
    (hpeers : ∀ p ∈ t.leaves, p.node ∉ (t.batch d root).ids)
    (h : e ∈ (t.batch d root).edges) : (d.near e).node ≠ (d.far e).node := by
  induction t generalizing root with
  | leaf peer =>
    rw [batch, List.mem_singleton] at h
    rw [h, Direction.near_connect, Direction.far_connect]
    exact hleaf peer rfl
  | fork first last left right ihl ihr =>
    simp only [ids_batch_fork, List.nodup_cons, List.mem_cons, List.mem_append, not_or,
      List.nodup_append] at hids hpeers
    obtain ⟨⟨hroot, _⟩, ⟨hil, hir⟩, hnl, hnr, _⟩ := hids
    rw [batch_fork, List.mem_append, List.mem_append, List.mem_singleton] at h
    rcases h with (h | h) | rfl
    · refine ihl ?_ (List.nodup_cons.mpr ⟨hil, hnl⟩) ?_ h
      · intro p heq
        subst heq
        exact fun he => (hpeers p (by simp [leaves])).1 he.symm
      · exact fun p hp => (hpeers p (List.mem_append_left _ hp)).2.1
    · refine ihr ?_ (List.nodup_cons.mpr ⟨hir, hnr⟩) ?_ h
      · intro p heq
        subst heq
        exact fun he => (hpeers p (by simp [leaves])).1 he.symm
      · exact fun p hp => (hpeers p (List.mem_append_right _ hp)).2.2
    · rw [Direction.near_connect, Direction.far_connect]
      exact hroot

end FanTree
end PortNet
