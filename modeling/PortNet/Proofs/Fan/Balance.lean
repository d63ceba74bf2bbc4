import Mathlib.Data.Nat.Log
import PortNet.Proofs.Fan.Routing

namespace PortNet

/-- A number between the logarithm of a size rounded down and the one rounded up, which are equal or
neighbours. -/
def IsLog (size k : Nat) : Prop := k = Nat.log 2 size ∨ k = Nat.clog 2 size

theorem clog_le_log_add_one (n : Nat) : Nat.clog 2 n ≤ Nat.log 2 n + 1 :=
  Nat.clog_le_of_le_pow (Nat.lt_pow_succ_log_self Nat.one_lt_two n).le

theorem isLog_iff {size k : Nat} : IsLog size k ↔ Nat.log 2 size ≤ k ∧ k ≤ Nat.clog 2 size := by
  have hle := Nat.log_le_clog 2 size
  have hnext := clog_le_log_add_one size
  unfold IsLog
  omega

/-- Of two halves, the smaller one has the logarithm rounded down. -/
theorem log_add_halves {a b : Nat} (hb : 0 < b) (h : a = b ∨ a = b + 1) :
    Nat.log 2 (a + b) = Nat.log 2 b + 1 := by
  rw [Nat.log_of_one_lt_of_le Nat.one_lt_two (by omega)]
  congr 2
  omega

/-- The larger one has the logarithm rounded up. -/
theorem clog_add_halves {a b : Nat} (hb : 0 < b) (h : a = b ∨ a = b + 1) :
    Nat.clog 2 (a + b) = Nat.clog 2 a + 1 := by
  rw [Nat.clog_of_two_le Nat.one_lt_two (by omega)]
  congr 2
  omega

namespace FanTree
variable {d : Direction} {root : FanRoot} {t : FanTree} {first last : Nat}

/-- How many forks stand above each leaf. -/
def depths : FanTree → List Nat
  | leaf _ => [0]
  | fork _ _ left right => (left.depths ++ right.depths).map (· + 1)

/-- A tree over the leaves `first` to `last` in which every fork cuts its range into two parts,
neither of them empty, the left one as long as the right one or longer by one. -/
inductive Halved : Nat → Nat → FanTree → Prop
  | leaf (first : Nat) (peer : Port) : Halved first first (.leaf peer)
  | fork {first cut last : Nat} {left right : FanTree} (hfirst : first ≤ cut) (hlast : cut < last)
      (hsize : cut + 1 - first = last - cut ∨ cut + 1 - first = last - cut + 1)
      (hleft : Halved first cut left) (hright : Halved (cut + 1) last right) :
      Halved first last (.fork first last left right)

/-- Cutting at the middle of the absolute numbers halves a range wherever it starts. -/
theorem halved_of_balanced? (first : Nat) (peers : List Port) :
    ∀ t, balanced? first peers = some t → Halved first (first + peers.length - 1) t := by
  induction first, peers using balanced?.induct with
  | case1 => simp [balanced?]
  | case2 first peer =>
    intro t h
    rw [balanced?, Option.some.injEq] at h
    rw [← h]
    exact .leaf first peer
  | case3 first p q peers all last left ihl ihr =>
    intro t h
    have hall : all.length = peers.length + 2 := rfl
    have hlast : last = first + peers.length + 1 := rfl
    have hleft : left = (first + last) / 2 - first + 1 := rfl
    simp only [balanced?, Option.bind_eq_bind, Option.bind_eq_some_iff, Option.some.injEq] at h
    obtain ⟨l, hl, r, hr, rfl⟩ := h
    have hhalf := ihl l hl
    have hrest := ihr r hr
    rw [List.length_take, Nat.min_eq_left (by omega),
      show first + left - 1 = (first + last) / 2 by omega] at hhalf
    rw [List.length_drop, hall, show first + left = (first + last) / 2 + 1 by omega,
      show (first + last) / 2 + 1 + (peers.length + 2 - left) - 1 = last by omega] at hrest
    have hend : first + (p :: q :: peers).length - 1 = last := by
      rw [hlast, List.length_cons, List.length_cons]
      omega
    rw [hend]
    exact @Halved.fork first ((first + last) / 2) last l r (by omega) (by omega) (by omega) hhalf
      hrest

/-- The leaves of a halved tree lie on the two levels that its size allows. -/
theorem Halved.isLog_depths (h : Halved first last t) :
    ∀ k ∈ t.depths, IsLog (last + 1 - first) k := by
  induction h with
  | leaf first peer => simp [depths, IsLog]
  | @fork first cut last left right hfirst hlast hsize hleft hright ihl ihr =>
    intro k hk
    obtain ⟨j, hj, rfl⟩ := List.mem_map.mp hk
    have hsum : last + 1 - first = (cut + 1 - first) + (last + 1 - (cut + 1)) := by omega
    have hhalves : last + 1 - (cut + 1) ≤ cut + 1 - first := by omega
    have hlogs := Nat.log_mono_right (b := 2) hhalves
    have hclogs := Nat.clog_mono_right 2 hhalves
    rw [isLog_iff, hsum, log_add_halves (by omega) (by omega),
      clog_add_halves (by omega) (by omega)]
    rcases List.mem_append.mp hj with hl | hr
    · have hbounds := isLog_iff.mp (ihl j hl)
      omega
    · have hbounds := isLog_iff.mp (ihr j hr)
      omega

/-- Some leaf lies on the deeper one of them: down the left halves the size is rounded up. -/
theorem Halved.clog_mem_depths (h : Halved first last t) :
    Nat.clog 2 (last + 1 - first) ∈ t.depths := by
  induction h with
  | leaf first peer => simp [depths]
  | @fork first cut last left right hfirst hlast hsize hleft hright ihl ihr =>
    have hsum : last + 1 - first = (cut + 1 - first) + (last + 1 - (cut + 1)) := by omega
    rw [hsum, clog_add_halves (by omega) (by omega)]
    exact List.mem_map.mpr ⟨_, List.mem_append_left _ ihl, rfl⟩

/-- A way down has one edge more than there are forks above its leaf. -/
theorem map_length_descents (t : FanTree) (d : Direction) (root : FanRoot) :
    (t.descents d root).map List.length = t.depths.map (· + 1) := by
  induction t generalizing root with
  | leaf peer => rfl
  | fork first last left right ihl ihr =>
    have hcons (e : Edge) : List.length ∘ List.cons e = (· + 1) ∘ List.length := rfl
    rw [descents, depths, List.map_map, hcons, ← List.map_map, List.map_append, ihl, ihr,
      ← List.map_append]

theorem mem_depths_iff (t : FanTree) (d : Direction) (root : FanRoot) {k : Nat} :
    k ∈ t.depths ↔ ∃ path ∈ t.descents d root, path.length = k + 1 := by
  have hmem : k + 1 ∈ (t.descents d root).map List.length ↔ k ∈ t.depths := by
    rw [map_length_descents]
    simp
  rw [← hmem, List.mem_map]

end FanTree

/-- A way down from the root of a batch to a leaf. It passes one node less than it has edges. -/
def Batch.LeafPath (b : Batch) (d : Direction) (root : Port) (path : List Edge) : Prop :=
  Descent d b.edges b.ids.contains root path ∧ ∃ e ∈ b.leafEdges d, path.getLast? = some e

theorem FanTree.leafPath_iff {d : Direction} {root : FanRoot} {t : FanTree}
    (hoff : ∀ p ∈ t.leaves, p.node ∉ (t.batch d root).ids) {path : List Edge} :
    (t.batch d root).LeafPath d root.port path ↔ path ∈ t.descents d root := by
  rw [Batch.LeafPath, leafEdges_batch hoff]
  constructor
  · intro hall
    obtain ⟨hdown, e, he, hlast⟩ := hall
    have hleaf : d.far e ∈ t.leaves := by
      rw [← map_far_leafEdges t d root]
      exact List.mem_map.mpr ⟨e, he, rfl⟩
    exact mem_descents_of_descent (nodup_near_batch t d root) (embedded_batch t d root)
      (contains_eq_false hoff) hdown hlast (contains_eq_false hoff _ hleaf)
  · intro hpath
    refine ⟨descent_of_mem_descents (embedded_batch t d root) hpath, ?_⟩
    have hlast : path.getLast? ∈ (t.leafEdges d root).map some := by
      rw [← map_getLast?_descents]
      exact List.mem_map.mpr ⟨path, hpath, rfl⟩
    obtain ⟨e, he, heq⟩ := List.mem_map.mp hlast
    exact ⟨e, he, heq.symm⟩

namespace Direction

/-- The tree over any list of peers is balanced, from whatever number its leaves are counted. Every
leaf is below as many nodes as the logarithm of the number of peers says, rounded down or up, and
some leaf is below as many as it says rounded up. -/
theorem balanced_tree {peers : List Port} (hne : peers ≠ []) :
    (∀ first, ∃ t, FanTree.balanced? first peers = some t ∧ t.leaves = peers ∧
      FanTree.Halved first (first + peers.length - 1) t ∧
      (∀ k ∈ t.depths, IsLog peers.length k) ∧ Nat.clog 2 peers.length ∈ t.depths) ∧
    ∀ (d : Direction) (root : FanRoot), ∃ t, FanTree.balanced? 0 peers = some t ∧
      d.tree root peers = .ok (t.batch d root) ∧
      ((∀ p ∈ peers, p.node ∉ (t.batch d root).ids) →
        (∀ path, (t.batch d root).LeafPath d root.port path →
          IsLog peers.length (path.length - 1)) ∧
        ∃ path, (t.batch d root).LeafPath d root.port path ∧
          path.length - 1 = Nat.clog 2 peers.length) := by
  have hlevels : ∀ first, ∃ t, FanTree.balanced? first peers = some t ∧ t.leaves = peers ∧
      FanTree.Halved first (first + peers.length - 1) t ∧
      (∀ k ∈ t.depths, IsLog peers.length k) ∧ Nat.clog 2 peers.length ∈ t.depths := by
    intro first
    obtain ⟨t, ht, hleaves⟩ := FanTree.exists_balanced? first peers hne
    have hhalved := FanTree.halved_of_balanced? first peers t ht
    have hpos := List.length_pos_iff.mpr hne
    have hsize : first + peers.length - 1 + 1 - first = peers.length := by omega
    have hlog := hhalved.isLog_depths
    have hclog := hhalved.clog_mem_depths
    rw [hsize] at hlog hclog
    exact ⟨t, ht, hleaves, hhalved, hlog, hclog⟩
  refine ⟨hlevels, fun d root => ?_⟩
  obtain ⟨t, ht, hleaves, _, hlog, hclog⟩ := hlevels 0
  refine ⟨t, ht, by rw [tree, ht], fun hoff => ⟨fun path hpath => ?_, ?_⟩⟩
  · rw [← hleaves] at hoff
    have hmem := (FanTree.leafPath_iff hoff).mp hpath
    have hpos := List.length_pos_iff.mpr hpath.1.ne_nil
    exact hlog _ ((t.mem_depths_iff d root).mpr ⟨path, hmem, by omega⟩)
  · rw [← hleaves] at hoff
    obtain ⟨path, hpath, hlength⟩ := (t.mem_depths_iff d root).mp hclog
    exact ⟨path, (FanTree.leafPath_iff hoff).mpr hpath, by omega⟩

/-- Of five leaves some are below two nodes and some below three. -/
theorem balanced_tree_five : ∃ b, outward.tree sharedOutput fivePeers = .ok b ∧
    (∀ path, b.LeafPath .outward sharedOutput.port path →
      path.length - 1 = 2 ∨ path.length - 1 = 3) ∧
    ∃ path, b.LeafPath .outward sharedOutput.port path ∧ path.length - 1 = 3 := by
  have hne : fivePeers ≠ [] := by decide
  obtain ⟨t, ht, hok, hpaths⟩ := (balanced_tree hne).2 .outward sharedOutput
  have hids : (t.batch .outward sharedOutput).ids =
      ((outward.tree sharedOutput fivePeers).toOption.map Batch.ids).getD [] := by
    rw [hok]
    rfl
  have hlog : Nat.log 2 fivePeers.length = 2 := by decide
  have hclog : Nat.clog 2 fivePeers.length = 3 := by decide
  obtain ⟨hall, hdeep⟩ := hpaths (by rw [hids]; decide +kernel)
  rw [hclog] at hdeep
  refine ⟨_, hok, fun path hpath => ?_, hdeep⟩
  have hlevel := hall path hpath
  rwa [IsLog, hlog, hclog] at hlevel

end Direction
end PortNet
