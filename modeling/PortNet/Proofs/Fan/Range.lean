import PortNet.Proofs.Fan.Balance

namespace PortNet

namespace Direction

/-- The nodes and edges over the peers `first` to `last` of a list, which stays in one piece. Over
two peers no subtrees are built. -/
def range (d : Direction) (peers : List Port) (root : FanRoot) (first last : Nat)
    (hle : first ≤ last) (hlt : last < peers.length) : Batch :=
  if hleaf : first = last then ⟨[], [d.connect root.port peers[first]]⟩
  else
    let id := Synthesis.twoWayId d root.port first last
    let node := Synthesis.twoWay d id root.type root.scope
    let trunk := d.connect root.port ⟨id, d.trunk⟩
    if hpair : last - first = 1 then
      ⟨[node], [d.connect ⟨id, d.branches.1⟩ peers[first], d.connect ⟨id, d.branches.2⟩ peers[last],
        trunk]⟩
    else
      let middle := (first + last) / 2
      let left := d.range peers (root.branch id d.branches.1) first middle (by omega) (by omega)
      let right := d.range peers (root.branch id d.branches.2) (middle + 1) last (by omega) hlt
      ⟨node :: (left.nodes ++ right.nodes), left.edges ++ right.edges ++ [trunk]⟩
termination_by last - first

/-- A single peer hangs from the root by one edge. -/
theorem range_self (d : Direction) {peers : List Port} {first : Nat} (hlt : first < peers.length)
    (root : FanRoot) : d.range peers root first first (Nat.le_refl _) hlt =
      ⟨[], [d.connect root.port peers[first]]⟩ := by
  rw [range, dif_pos rfl]

end Direction

namespace FanTree
variable {d : Direction} {root : FanRoot} {t : FanTree} {first last : Nat} {peers : List Port}

theorem Halved.le (h : Halved first last t) : first ≤ last := by
  cases h with
  | leaf => exact Nat.le_refl _
  | fork hfirst hlast => omega

theorem Halved.length_leaves (h : Halved first last t) : t.leaves.length = last + 1 - first := by
  induction h with
  | leaf first peer => simp [leaves]
  | fork hfirst hlast _ _ _ ihl ihr =>
    rw [leaves, List.length_append, ihl, ihr]
    omega

/-- A halved tree whose leaves are the peers `first` to `last` of a list stands for the same nodes
and edges as that part of the list. -/
theorem Halved.batch_eq_range (h : Halved first last t) (hlt : last < peers.length)
    (hleaves : ∀ i ≤ last - first, t.leaves[i]? = peers[first + i]?) (root : FanRoot) :
    t.batch d root = d.range peers root first last h.le hlt := by
  induction h generalizing root with
  | leaf first peer =>
    have hpeer : some peer = peers[first]? := hleaves 0 (Nat.zero_le _)
    rw [List.getElem?_eq_getElem hlt, Option.some.injEq] at hpeer
    rw [Direction.range_self, batch, hpeer]
  | @fork first cut last left right hfirst hlast hsize hleft hright ihl ihr =>
    have hcut : (first + last) / 2 = cut := by omega
    have hl : ∀ i ≤ cut - first, left.leaves[i]? = peers[first + i]? := by
      intro i hi
      rw [← hleaves i (by omega), leaves,
        List.getElem?_append_left (by rw [hleft.length_leaves]; omega)]
    have hr : ∀ i ≤ last - (cut + 1), right.leaves[i]? = peers[cut + 1 + i]? := by
      intro i hi
      have hsum : first + (cut + 1 - first + i) = cut + 1 + i := by omega
      rw [← hsum, ← hleaves _ (by omega), leaves,
        List.getElem?_append_right (by rw [hleft.length_leaves]; omega), hleft.length_leaves,
        Nat.add_sub_cancel_left]
    have hne : first ≠ last := by omega
    rw [batch_fork, ihl (by omega) hl, ihr hlt hr]
    conv_rhs => rw [Direction.range, dif_neg hne]
    by_cases hpair : last - first = 1
    · obtain ⟨rfl, rfl⟩ : cut = first ∧ last = first + 1 := by omega
      simp only [Direction.range_self, dif_pos hpair]
      rfl
    · subst hcut
      simp only [dif_neg hpair]
      rfl

end FanTree

/-- The tree for a fan is the one over all of its peers, from the first to the last. -/
theorem Direction.tree_eq_range (d : Direction) (root : FanRoot) (peers : List Port) :
    d.tree root peers = if h : 0 < peers.length then
      .ok (d.range peers root 0 (peers.length - 1) (Nat.zero_le _) (Nat.sub_one_lt_of_lt h))
    else .error (d.noPeers root.port) := by
  by_cases h : 0 < peers.length
  · have hne : peers ≠ [] := List.ne_nil_of_length_pos h
    have hhalved := FanTree.halved_of_balanced? 0 peers _ (FanTree.balanced?_eq_spanning hne)
    simp only [Nat.zero_add] at hhalved
    rw [dif_pos h, FanTree.tree_eq_spanning hne,
      hhalved.batch_eq_range (Nat.sub_one_lt_of_lt h) fun i _ => by
        rw [FanTree.leaves_spanning hne, Nat.zero_add]]
  · have hnil : peers = [] := by simpa using h
    subst hnil
    rw [dif_neg h]
    simp [Direction.tree, FanTree.balanced?]

end PortNet
