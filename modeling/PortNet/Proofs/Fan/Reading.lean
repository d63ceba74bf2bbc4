import PortNet.Proofs.Fan.Naming

namespace PortNet

/-- Reading a tree from a port: the edges to its leaves from left to right. A node that is `inner` is
entered by its trunk and read branch by branch; any other node ends the reading. -/
inductive Reads (d : Direction) (edges : List Edge) (inner : NodeId → Bool) :
    Port → List Edge → Prop
  | leaf {p : Port} {e : Edge} (he : e ∈ edges) (hnear : d.near e = p)
      (hend : inner (d.far e).node = false) : Reads d edges inner p [e]
  | fork {p : Port} {e : Edge} {id : NodeId} {left right : List Edge} (he : e ∈ edges)
      (hnear : d.near e = p) (hinner : inner id = true) (htrunk : d.far e = ⟨id, d.trunk⟩)
      (hleft : Reads d edges inner ⟨id, d.branches.1⟩ left)
      (hright : Reads d edges inner ⟨id, d.branches.2⟩ right) :
      Reads d edges inner p (left ++ right)

/-- A way down a tree, edge by edge: each edge but the last enters an inner node by its trunk, which
the next one leaves by a branch. -/
inductive Descent (d : Direction) (edges : List Edge) (inner : NodeId → Bool) :
    Port → List Edge → Prop
  | last {p : Port} {e : Edge} (he : e ∈ edges) (hnear : d.near e = p) :
      Descent d edges inner p [e]
  | step {p q : Port} {e : Edge} {id : NodeId} {path : List Edge} (he : e ∈ edges)
      (hnear : d.near e = p) (hinner : inner id = true) (htrunk : d.far e = ⟨id, d.trunk⟩)
      (hbranch : q = ⟨id, d.branches.1⟩ ∨ q = ⟨id, d.branches.2⟩)
      (rest : Descent d edges inner q path) : Descent d edges inner p (e :: path)

/-- The edges of a batch that lead out of its nodes, in their order. -/
def Batch.leafEdges (b : Batch) (d : Direction) : List Edge :=
  b.edges.filter (fun e => !b.ids.contains (d.far e).node)

section Edges
variable {d : Direction} {edges : List Edge} {inner : NodeId → Bool} {p : Port}

theorem eq_of_near (hn : (edges.map d.near).Nodup) {e e' : Edge} (he : e ∈ edges)
    (he' : e' ∈ edges) (hnear : d.near e = d.near e') : e = e' :=
  List.inj_on_of_nodup_map hn he he' hnear

/-- Where no two edges share their near ends, there is only one way to read a tree. -/
theorem Reads.unique (hn : (edges.map d.near).Nodup) {es es' : List Edge}
    (h : Reads d edges inner p es) (h' : Reads d edges inner p es') : es = es' := by
  induction h generalizing es' with
  | leaf he hnear hend =>
    cases h' with
    | leaf he' hnear' _ => rw [eq_of_near hn he he' (hnear.trans hnear'.symm)]
    | fork he' hnear' hinner htrunk _ _ =>
      rw [eq_of_near hn he he' (hnear.trans hnear'.symm), htrunk, hinner] at hend
      cases hend
  | fork he hnear hinner htrunk _ _ ihl ihr =>
    cases h' with
    | leaf he' hnear' hend =>
      rw [← eq_of_near hn he he' (hnear.trans hnear'.symm), htrunk, hinner] at hend
      cases hend
    | fork he' hnear' hinner' htrunk' hleft' hright' =>
      rw [eq_of_near hn he he' (hnear.trans hnear'.symm), htrunk'] at htrunk
      cases htrunk
      rw [ihl hleft', ihr hright']

theorem Descent.ne_nil {path : List Edge} (h : Descent d edges inner p path) : path ≠ [] := by
  cases h <;> exact List.cons_ne_nil _ _

end Edges

namespace FanTree
variable {d : Direction} {root : FanRoot} {t : FanTree} {e : Edge} {edges : List Edge}
  {inner : NodeId → Bool}

/-- The edges of a tree that lead to its leaves. -/
def leafEdges (d : Direction) (root : FanRoot) : FanTree → List Edge
  | leaf peer => [d.connect root.port peer]
  | fork first last left right =>
    left.leafEdges d (root.branch (forkId d root first last) d.branches.1) ++
      right.leafEdges d (root.branch (forkId d root first last) d.branches.2)

/-- The ways down to the leaves, one for each leaf. -/
def descents (d : Direction) (root : FanRoot) : FanTree → List (List Edge)
  | leaf peer => [[d.connect root.port peer]]
  | fork first last left right =>
    (left.descents d (root.branch (forkId d root first last) d.branches.1) ++
      right.descents d (root.branch (forkId d root first last) d.branches.2)).map
        (List.cons (d.connect root.port ⟨forkId d root first last, d.trunk⟩))

theorem map_far_leafEdges (t : FanTree) (d : Direction) (root : FanRoot) :
    (t.leafEdges d root).map d.far = t.leaves := by
  induction t generalizing root with
  | leaf peer => simp [leafEdges, leaves]
  | fork first last left right ihl ihr => rw [leafEdges, List.map_append, ihl, ihr, leaves]

theorem length_leafEdges (t : FanTree) (d : Direction) (root : FanRoot) :
    (t.leafEdges d root).length = t.leaves.length := by
  rw [← map_far_leafEdges t d root, List.length_map]

theorem ne_nil_of_mem_descents {path : List Edge} (h : path ∈ t.descents d root) : path ≠ [] := by
  cases t with
  | leaf peer =>
    rw [descents, List.mem_singleton] at h
    simp [h]
  | fork first last left right =>
    obtain ⟨rest, _, rfl⟩ := List.mem_map.mp h
    exact List.cons_ne_nil _ _

/-- Each way down ends with the edge to its leaf. -/
theorem map_getLast?_descents (t : FanTree) (d : Direction) (root : FanRoot) :
    (t.descents d root).map List.getLast? = (t.leafEdges d root).map some := by
  induction t generalizing root with
  | leaf peer => rfl
  | fork first last left right ihl ihr =>
    rw [leafEdges, List.map_append, ← ihl, ← ihr, ← List.map_append, descents, List.map_map]
    apply List.map_congr_left
    intro path hpath
    have hne : path ≠ [] := by
      rcases List.mem_append.mp hpath with hl | hr
      · exact ne_nil_of_mem_descents hl
      · exact ne_nil_of_mem_descents hr
    exact List.getLast?_cons_of_ne_nil hne

theorem length_descents (t : FanTree) (d : Direction) (root : FanRoot) :
    (t.descents d root).length = t.leaves.length := by
  have hlast := congrArg List.length (map_getLast?_descents t d root)
  rwa [List.length_map, List.length_map, length_leafEdges] at hlast

/-- What a way down from a branch of a fork becomes at the root of the fork. -/
theorem mem_descents_fork {first last : Nat} {left right : FanTree} {path : List Edge} :
    path ∈ (fork first last left right).descents d root ↔
      ∃ rest, (rest ∈ left.descents d (root.branch (forkId d root first last) d.branches.1) ∨
        rest ∈ right.descents d (root.branch (forkId d root first last) d.branches.2)) ∧
          d.connect root.port ⟨forkId d root first last, d.trunk⟩ :: rest = path := by
  rw [descents, List.mem_map]
  simp only [List.mem_append]

/-- A tree among other edges: its edges are some of them, and its nodes are inner ones. -/
structure Embedded (t : FanTree) (d : Direction) (root : FanRoot) (edges : List Edge)
    (inner : NodeId → Bool) : Prop where
  edge : ∀ e ∈ (t.batch d root).edges, e ∈ edges
  node : ∀ id ∈ (t.batch d root).ids, inner id = true

namespace Embedded
variable {first last : Nat} {l r : FanTree}

theorem trunk (h : Embedded (fork first last l r) d root edges inner) :
    d.connect root.port ⟨forkId d root first last, d.trunk⟩ ∈ edges :=
  h.edge _ (by rw [batch_fork]; exact List.mem_append_right _ (List.mem_singleton.mpr rfl))

theorem top (h : Embedded (fork first last l r) d root edges inner) :
    inner (forkId d root first last) = true :=
  h.node _ (by rw [ids_batch_fork]; exact List.mem_cons_self)

theorem left (h : Embedded (fork first last l r) d root edges inner) :
    Embedded l d (root.branch (forkId d root first last) d.branches.1) edges inner where
  edge e he := h.edge e (by
    rw [batch_fork]
    exact List.mem_append_left _ (List.mem_append_left _ he))
  node id hid := h.node id (by
    rw [ids_batch_fork]
    exact List.mem_cons_of_mem _ (List.mem_append_left _ hid))

theorem right (h : Embedded (fork first last l r) d root edges inner) :
    Embedded r d (root.branch (forkId d root first last) d.branches.2) edges inner where
  edge e he := h.edge e (by
    rw [batch_fork]
    exact List.mem_append_left _ (List.mem_append_right _ he))
  node id hid := h.node id (by
    rw [ids_batch_fork]
    exact List.mem_cons_of_mem _ (List.mem_append_right _ hid))

end Embedded

/-- The edges that leave a tree come in the order of its leaves. -/
theorem filter_edges_batch (hnode : ∀ id ∈ (t.batch d root).ids, inner id = true)
    (hleaf : ∀ p ∈ t.leaves, inner p.node = false) :
    (t.batch d root).edges.filter (fun e => !inner (d.far e).node) = t.leafEdges d root := by
  induction t generalizing root with
  | leaf peer => simp [batch, leafEdges, hleaf peer (List.mem_singleton.mpr rfl)]
  | fork first last left right ihl ihr =>
    rw [ids_batch_fork] at hnode
    obtain ⟨htop, hnode⟩ := List.forall_mem_cons.mp hnode
    obtain ⟨hnodel, hnoder⟩ := List.forall_mem_append.mp hnode
    obtain ⟨hleafl, hleafr⟩ := List.forall_mem_append.mp hleaf
    rw [batch_fork, leafEdges, List.filter_append, List.filter_append, ihl hnodel hleafl,
      ihr hnoder hleafr]
    simp [htop]

/-- Read from its root, a tree gives the edges to its leaves. -/
theorem reads_leafEdges (h : Embedded t d root edges inner)
    (hleaf : ∀ p ∈ t.leaves, inner p.node = false) :
    Reads d edges inner root.port (t.leafEdges d root) := by
  induction t generalizing root with
  | leaf peer =>
    refine .leaf (h.edge _ (List.mem_singleton.mpr rfl)) (d.near_connect _ _) ?_
    rw [Direction.far_connect]
    exact hleaf peer (List.mem_singleton.mpr rfl)
  | fork first last left right ihl ihr =>
    obtain ⟨hleafl, hleafr⟩ := List.forall_mem_append.mp hleaf
    exact .fork h.trunk (d.near_connect _ _) h.top (d.far_connect _ _) (ihl h.left hleafl)
      (ihr h.right hleafr)

theorem descent_of_mem_descents (h : Embedded t d root edges inner) {path : List Edge}
    (hpath : path ∈ t.descents d root) : Descent d edges inner root.port path := by
  induction t generalizing root path with
  | leaf peer =>
    rw [descents, List.mem_singleton] at hpath
    rw [hpath]
    exact .last (h.edge _ (List.mem_singleton.mpr rfl)) (d.near_connect _ _)
  | fork first last left right ihl ihr =>
    obtain ⟨rest, hrest, rfl⟩ := mem_descents_fork.mp hpath
    rcases hrest with hl | hr
    · exact .step h.trunk (d.near_connect _ _) h.top (d.far_connect _ _) (.inl rfl) (ihl h.left hl)
    · exact .step h.trunk (d.near_connect _ _) h.top (d.far_connect _ _) (.inr rfl)
        (ihr h.right hr)

/-- There are no other ways down from the root that lead out of the tree. -/
theorem mem_descents_of_descent (hn : (edges.map d.near).Nodup)
    (h : Embedded t d root edges inner) (hleaf : ∀ p ∈ t.leaves, inner p.node = false)
    {path : List Edge} (hpath : Descent d edges inner root.port path)
    (hlast : path.getLast? = some e) (hend : inner (d.far e).node = false) :
    path ∈ t.descents d root := by
  induction t generalizing root path with
  | leaf peer =>
    have hedge := h.edge _ (List.mem_singleton.mpr rfl)
    cases hpath with
    | last he hnear =>
      rw [eq_of_near hn he hedge (hnear.trans (d.near_connect _ _).symm)]
      exact List.mem_singleton.mpr rfl
    | step he hnear hinner htrunk _ _ =>
      rw [eq_of_near hn he hedge (hnear.trans (d.near_connect _ _).symm),
        Direction.far_connect] at htrunk
      have hout := hleaf peer (List.mem_singleton.mpr rfl)
      rw [htrunk, hinner] at hout
      cases hout
  | fork first last left right ihl ihr =>
    obtain ⟨hleafl, hleafr⟩ := List.forall_mem_append.mp hleaf
    cases hpath with
    | last he hnear =>
      have hedge := eq_of_near hn he h.trunk (hnear.trans (d.near_connect _ _).symm)
      rw [List.getLast?_singleton, hedge, Option.some.injEq] at hlast
      rw [← hlast, Direction.far_connect, h.top] at hend
      cases hend
    | step he hnear hinner htrunk hbranch rest =>
      have hedge := eq_of_near hn he h.trunk (hnear.trans (d.near_connect _ _).symm)
      rw [hedge, Direction.far_connect] at htrunk
      cases htrunk
      rw [List.getLast?_cons_of_ne_nil rest.ne_nil] at hlast
      refine mem_descents_fork.mpr ⟨_, ?_, by rw [hedge]⟩
      rcases hbranch with rfl | rfl
      · exact .inl (ihl h.left hleafl rest hlast)
      · exact .inr (ihr h.right hleafr rest hlast)

/-- No two edges of a tree start at one port. -/
theorem nodup_near_batch (t : FanTree) (d : Direction) (root : FanRoot) :
    ((t.batch d root).edges.map d.near).Nodup := by
  obtain ⟨hroot, hids⟩ := List.nodup_cons.mp (nodup_ids_batch t d root)
  refine (perm_near_batch t d root).nodup_iff.mpr (List.nodup_cons.mpr ⟨fun hm => ?_,
    Node.nodup_flatMap_portsOn hids d.side⟩)
  obtain ⟨n, hn, hp⟩ := List.mem_flatMap.mp hm
  exact hroot (List.mem_map.mpr ⟨n, hn, (Node.node_of_mem_portsOn hp).symm⟩)

end FanTree
end PortNet
