import PortNet.Proofs.Collision
import PortNet.Proofs.Fan.Expansion

namespace PortNet

namespace Synthesis
variable {d : Direction} {id : NodeId}

/-- The headings at the two branches of a node have the same length, so that no id stands under
both. -/
theorem not_heading_of_heading {top : NodeId} (hone : heading d ⟨top, d.branches.1⟩ <+: id.toList) :
    ¬ heading d ⟨top, d.branches.2⟩ <+: id.toList := by
  intro htwo
  have hlength : (heading d ⟨top, d.branches.1⟩).length =
      (heading d ⟨top, d.branches.2⟩).length := by
    cases d <;> simp [heading, Direction.branches]
  have hprefix := List.prefix_of_prefix_length_le hone htwo (Nat.le_of_eq hlength)
  have heq := hprefix.eq_of_length hlength
  cases d <;> simp [heading, Direction.branches] at heq

end Synthesis

open Synthesis

namespace FanTree
variable {d : Direction} {root : FanRoot} {t : FanTree} {id : NodeId}

/-- The heading at a branch starts with the id of the node that branches, and that id with the
heading at the root. -/
theorem heading_prefix_branch (first last : Nat) (name : PortName) :
    heading d root.port <+:
      heading d (root.branch (forkId d root first last) name).port :=
  (heading_prefix_twoWayId d root.port first last).trans (List.prefix_append _ _)

/-- Each id of a tree is made at a port under the heading of its root. -/
theorem exists_twoWayId_of_mem_ids (h : id ∈ (t.batch d root).ids) :
    ∃ p first last, id = twoWayId d p first last ∧ heading d root.port <+: heading d p := by
  induction t generalizing root with
  | leaf peer => cases h
  | fork first last left right ihl ihr =>
    rw [ids_batch_fork, List.mem_cons, List.mem_append] at h
    rcases h with rfl | h | h
    · exact ⟨root.port, first, last, rfl, List.prefix_refl _⟩
    · obtain ⟨p, i, j, rfl, hp⟩ := ihl h
      exact ⟨p, i, j, rfl, (heading_prefix_branch first last _).trans hp⟩
    · obtain ⟨p, i, j, rfl, hp⟩ := ihr h
      exact ⟨p, i, j, rfl, (heading_prefix_branch first last _).trans hp⟩

/-- All ids of a tree stand under the heading of its root. -/
theorem heading_of_mem_ids (h : id ∈ (t.batch d root).ids) : heading d root.port <+: id.toList := by
  obtain ⟨p, first, last, rfl, hp⟩ := exists_twoWayId_of_mem_ids h
  exact hp.trans (heading_prefix_twoWayId d p first last)

/-- The ids of a tree are distinct, whatever the names are, and none of them is that of the node at
its root: an id is shorter than those under it, and the branches have different headings. -/
theorem nodup_ids_batch (t : FanTree) (d : Direction) (root : FanRoot) :
    (root.port.node :: (t.batch d root).ids).Nodup := by
  induction t generalizing root with
  | leaf peer => exact List.nodup_singleton _
  | fork first last left right ihl ihr =>
    have hl := ihl (root.branch (forkId d root first last) d.branches.1)
    have hr := ihr (root.branch (forkId d root first last) d.branches.2)
    obtain ⟨htopl, hnodupl⟩ := List.nodup_cons.mp hl
    obtain ⟨htopr, hnodupr⟩ := List.nodup_cons.mp hr
    refine List.nodup_cons.mpr ⟨?_, ?_⟩
    · intro hm
      have hle := (heading_of_mem_ids hm).length_le
      have hlt := length_node_lt_heading d root.port
      omega
    · rw [ids_batch_fork]
      refine List.nodup_cons.mpr ⟨?_, List.nodup_append.mpr ⟨hnodupl, hnodupr, ?_⟩⟩
      · rw [List.mem_append, not_or]
        exact ⟨htopl, htopr⟩
      · intro id hleft other hright heq
        subst heq
        have hone := heading_of_mem_ids hleft
        have htwo := heading_of_mem_ids hright
        exact not_heading_of_heading hone htwo

/-- An id tells its direction, so that trees of the two directions have no id in common. -/
theorem disjoint_ids_batch {d' : Direction} (h : d ≠ d') (t t' : FanTree) (root root' : FanRoot) :
    (t.batch d root).ids.Disjoint (t'.batch d' root').ids := by
  intro id hid hid'
  obtain ⟨p, first, last, rfl, _⟩ := exists_twoWayId_of_mem_ids hid
  obtain ⟨q, first', last', hsame, _⟩ := exists_twoWayId_of_mem_ids hid'
  exact h (twoWayId_eq_iff.mp hsame).1

end FanTree

namespace Direction

/-- Whatever the names are made of, a tree over any peers gives each of its nodes an id of its own,
and none that of the node at its root. No duplicate has the id of a join, wherever their trees
hang. -/
theorem distinct_ids_tree (root root' : FanRoot) {peers peers' : List Port} (hne : peers ≠ [])
    (hne' : peers' ≠ []) :
    ∃ duplicates joins, outward.tree root peers = .ok duplicates ∧
      inward.tree root' peers' = .ok joins ∧
      duplicates.ids.length + 1 = peers.length ∧ joins.ids.length + 1 = peers'.length ∧
      (root.port.node :: duplicates.ids).Nodup ∧ (root'.port.node :: joins.ids).Nodup ∧
      duplicates.ids.Disjoint joins.ids := by
  refine ⟨_, _, FanTree.tree_eq_spanning hne .outward root,
    FanTree.tree_eq_spanning hne' .inward root', ?_, ?_, ?_, ?_, ?_⟩
  · exact FanTree.length_ids_spanning hne .outward root
  · exact FanTree.length_ids_spanning hne' .inward root'
  · exact FanTree.nodup_ids_batch _ .outward root
  · exact FanTree.nodup_ids_batch _ .inward root'
  · exact FanTree.disjoint_ids_batch (by decide) _ _ root root'

/-- A port at a node that is itself named like one of a tree, and the peers of a fan there. -/
def nestedRoot : FanRoot := ⟨⟨"a_o_DUPLICATE_0_2", "d1"⟩, .named "t", none⟩

def nestedPeers : List Port := [⟨"x", "p"⟩, ⟨"y", "p"⟩, ⟨"x", "p"⟩]

theorem distinct_ids_tree_nested : ∃ duplicates joins : Batch,
    duplicates.ids = ["a_o_DUPLICATE_0_2_d1_DUPLICATE_0_2",
      "a_o_DUPLICATE_0_2_d1_DUPLICATE_0_2_d1_DUPLICATE_0_1"] ∧
    joins.ids = ["a_o_DUPLICATE_0_2_d1_JOIN_0_2", "a_o_DUPLICATE_0_2_d1_JOIN_0_2_in1_JOIN_0_1"] ∧
    (nestedRoot.port.node :: duplicates.ids).Nodup ∧ (nestedRoot.port.node :: joins.ids).Nodup ∧
    duplicates.ids.Disjoint joins.ids := by
  have hne : nestedPeers ≠ [] := by decide
  obtain ⟨duplicates, joins, hout, hin, _, _, hdistinct⟩ :=
    distinct_ids_tree nestedRoot nestedRoot hne hne
  have hids : ∀ {d : Direction} {b : Batch}, d.tree nestedRoot nestedPeers = .ok b →
      b.ids = ((d.tree nestedRoot nestedPeers).toOption.map Batch.ids).getD [] := by
    intro d b htree
    rw [htree]
    rfl
  refine ⟨duplicates, joins, ?_, ?_, hdistinct⟩
  · rw [hids hout]
    decide +kernel
  · rw [hids hin]
    decide +kernel

end Direction

namespace Graph
variable {g : Graph} {d : Direction} {id : NodeId}

/-- The trees at several plain ports have no id in common. -/
theorem nodup_ids_trees (hg : g.WellFormed) (hplain : g.PlainNames) (d : Direction)
    (peers : Bundle → List Port) : ((g.bundles d).flatMap (fun b =>
      ((FanTree.spanning (peers b)).batch d (g.rootOf b)).ids)).Nodup := by
  refine List.nodup_flatMap.mpr ⟨fun b _ => ?_, ?_⟩
  · exact (List.nodup_cons.mp (FanTree.nodup_ids_batch _ d (g.rootOf b))).2
  · refine (List.pairwise_map.mp nodup_anchors).imp_of_mem ?_
    intro a b ha hb hne id hida hidb
    have hheada := FanTree.heading_of_mem_ids hida
    have hheadb := FanTree.heading_of_mem_ids hidb
    exact hne (port_eq_of_heading (hplain.plain_of_declares (hg.declares_anchor ha))
      (hplain.plain_of_declares (hg.declares_anchor hb)) hheada hheadb)

theorem mark_of_mem_trees (hg : g.WellFormed) (hplain : g.PlainNames) (peers : Bundle → List Port)
    (h : id ∈ (g.bundles d).flatMap (fun b =>
      ((FanTree.spanning (peers b)).batch d (g.rootOf b)).ids)) :
    mark id = some (word d).toList := by
  obtain ⟨b, hb, hid⟩ := List.mem_flatMap.mp h
  have hanchor := hplain.plain_of_declares (hg.declares_anchor hb)
  have hheading := FanTree.heading_of_mem_ids hid
  obtain ⟨rest, hparts⟩ := parts_of_heading hanchor hheading
  rw [mark, hparts]
  rfl

end Graph
end PortNet
