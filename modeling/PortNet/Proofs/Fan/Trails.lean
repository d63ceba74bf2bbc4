import Mathlib.Data.Set.Card
import PortNet.Proofs.Fan.Flow

namespace PortNet

/-- Positions of marked members with one key are the same where no two of them share a key. -/
theorem eq_of_nodup_map_filter {α β : Type} {mark : α → Bool} {key : α → β} {xs : List α}
    (h : ((xs.filter mark).map key).Nodup) {i j : Nat} {x y : α} (hi : xs[i]? = some x)
    (hj : xs[j]? = some y) (hx : mark x = true) (hy : mark y = true) (hkey : key x = key y) :
    i = j := by
  have hpairs := List.pairwise_iff_getElem.mp (List.pairwise_filter.mp (List.pairwise_map.mp h))
  obtain ⟨hilt, rfl⟩ := List.getElem?_eq_some_iff.mp hi
  obtain ⟨hjlt, rfl⟩ := List.getElem?_eq_some_iff.mp hj
  rcases Nat.lt_trichotomy i j with hlt | heq | hlt
  · exact absurd hkey (hpairs i j hilt hjlt hlt hx hy)
  · exact heq
  · exact absurd hkey.symm (hpairs j i hjlt hilt hlt hy hx)

namespace Graph

/-- The ports by which a path goes on that has entered a node which was added to `g`: from the trunk
of a duplicate by either branch, and from either branch of a join by its trunk. -/
def onward (g g' : Graph) (p : Port) : List Port :=
  match g'.node? p.node with
  | none => []
  | some n =>
    if g.contains p.node then []
    else if n.value.componentName = Synthesis.duplicateComponent ∧ p.name = "in" then
      [⟨p.node, "d1"⟩, ⟨p.node, "d2"⟩]
    else if n.value.componentName = Synthesis.joinComponent ∧
        (p.name = "in1" ∨ p.name = "in2") then
      [⟨p.node, "to"⟩]
    else []

/-- A path along data edges of `g'`, given by their positions, from one port to another. All nodes
in between were added to `g`. -/
inductive Trail (g g' : Graph) : Port → List Nat → Port → Prop
  | edge {i : Nat} {e : Edge} (hi : g'.edges[i]? = some e) (hdata : e.isContinuation = false) :
      Trail g g' e.source [i] e.target
  | step {i : Nat} {e : Edge} {q t : Port} {path : List Nat} (hi : g'.edges[i]? = some e)
      (hdata : e.isContinuation = false) (hq : q ∈ g.onward g' e.target)
      (rest : Trail g g' q path t) : Trail g g' e.source (i :: path) t

variable {g g' : Graph} {p q t : Port} {path : List Nat} {i : Nat} {e : Edge}

/-- The paths that lead to `t`. -/
def trails (g g' : Graph) (t p : Port) : Set (List Nat) := {path | Trail g g' p path t}

/-- The ways to complete a path to `t` that has arrived at a port. -/
def rests (g g' : Graph) (t p : Port) : Set (List Nat) :=
  {path | (path = [] ∧ p = t) ∨ ∃ q ∈ g.onward g' p, Trail g g' q path t}

theorem mem_trails_cons : i :: path ∈ trails g g' t p ↔ ∃ e, g'.edges[i]? = some e ∧
    e.isContinuation = false ∧ e.source = p ∧ path ∈ rests g g' t e.target := by
  constructor
  · intro h
    cases h with
    | edge hi hdata => exact ⟨_, hi, hdata, rfl, .inl ⟨rfl, rfl⟩⟩
    | step hi hdata hq rest => exact ⟨_, hi, hdata, rfl, .inr ⟨_, hq, rest⟩⟩
  · intro hall
    rcases hall with ⟨e, hi, hdata, rfl, ⟨rfl, rfl⟩ | ⟨q, hq, rest⟩⟩
    · exact Trail.edge hi hdata
    · exact Trail.step hi hdata hq rest

theorem nil_not_mem_trails : [] ∉ trails g g' t p := by
  intro h
  cases h

/-- A path starts at the source of its first edge, and nowhere else. -/
theorem eq_of_mem_trails (hp : path ∈ trails g g' t p) (hq : path ∈ trails g g' t q) : p = q := by
  cases path with
  | nil => exact absurd hp nil_not_mem_trails
  | cons i path =>
    obtain ⟨e, hi, _, hep, _⟩ := mem_trails_cons.mp hp
    obtain ⟨e', hi', _, heq, _⟩ := mem_trails_cons.mp hq
    rw [hi, Option.some.injEq] at hi'
    exact hep.symm.trans (hi' ▸ heq)

/-- Where a source has one edge only, its paths are the ways to go on behind that edge. -/
theorem encard_trails_source (hn : (g'.nearEnds .outward).Nodup) (he : e ∈ g'.dataEdges) :
    (trails g g' t e.source).encard = (rests g g' t e.target).encard := by
  obtain ⟨hmem, hdata⟩ := mem_dataEdges.mp he
  obtain ⟨i, hi⟩ := List.getElem?_of_mem hmem
  have hhead : trails g g' t e.source = (List.cons i) '' rests g g' t e.target := by
    ext path
    rw [Set.mem_image]
    cases path with
    | nil =>
      refine iff_of_false nil_not_mem_trails ?_
      intro hall
      obtain ⟨rest, _, hnil⟩ := hall
      cases hnil
    | cons j path =>
      rw [mem_trails_cons]
      constructor
      · intro hall
        obtain ⟨e', hj, hdata', hsource, hrest⟩ := hall
        rw [← map_near_dataEdges, dataEdges] at hn
        have hij : j = i := eq_of_nodup_map_filter hn hj hi (by simp [hdata']) (by simp [hdata])
          hsource
        subst hij
        rw [hi, Option.some.injEq] at hj
        exact ⟨path, hj ▸ hrest, rfl⟩
      · intro hall
        obtain ⟨rest, hrest, heq⟩ := hall
        cases heq
        exact ⟨e, hi, hdata, rfl, hrest⟩
  rw [hhead, List.cons_injective.encard_image]

theorem trails_eq_empty (h : p ∉ g'.nearEnds .outward) : trails g g' t p = ∅ := by
  apply Set.eq_empty_of_forall_notMem
  intro path hpath
  cases path with
  | nil => exact nil_not_mem_trails hpath
  | cons i path =>
    obtain ⟨e, hi, hdata, hsource, _⟩ := mem_trails_cons.mp hpath
    exact h (mem_nearEnds_iff_edge.mpr
      ⟨e, mem_dataEdges.mpr ⟨List.mem_of_getElem? hi, hdata⟩, hsource⟩)

/-- A path is never continued at an old node. -/
theorem encard_rests_old (hp : g.contains p.node = true) :
    (rests g g' t p).encard = if p = t then 1 else 0 := by
  have hend : g.onward g' p = [] := by
    unfold onward
    split
    · rfl
    · rw [if_pos hp]
  have hrests : rests g g' t p = {path | path = [] ∧ p = t} := by
    ext path
    simp [rests, hend]
  rw [hrests]
  split
  · rename_i heq
    simp only [heq, and_true]
    exact Set.encard_singleton []
  · rename_i hne
    simp [hne]

theorem rests_new (ht : g.contains t.node = true) (hp : g.contains p.node ≠ true) :
    rests g g' t p = {path | ∃ q ∈ g.onward g' p, Trail g g' q path t} := by
  ext path
  refine or_iff_right ?_
  intro hall
  obtain ⟨_, rfl⟩ := hall
  exact hp ht

/-- A path that has entered a duplicate goes on by one of its branches. -/
theorem encard_rests_duplicate (ht : g.contains t.node = true) {n : Node}
    (hn : g'.node? n.id = some n) (hnew : g.contains n.id ≠ true)
    (hc : n.value.componentName = Synthesis.duplicateComponent) :
    (rests g g' t ⟨n.id, "in"⟩).encard =
      (trails g g' t ⟨n.id, "d1"⟩).encard + (trails g g' t ⟨n.id, "d2"⟩).encard := by
  have honward : g.onward g' ⟨n.id, "in"⟩ = [⟨n.id, "d1"⟩, ⟨n.id, "d2"⟩] := by
    simp only [onward, hn]
    rw [if_neg hnew, if_pos ⟨hc, trivial⟩]
  have hfork : rests g g' t ⟨n.id, "in"⟩ =
      trails g g' t ⟨n.id, "d1"⟩ ∪ trails g g' t ⟨n.id, "d2"⟩ := by
    rw [rests_new ht hnew, honward]
    ext path
    simp [trails]
  rw [hfork]
  refine Set.encard_union_eq (Set.disjoint_left.mpr fun path h1 h2 => ?_)
  have hbranch := eq_of_mem_trails h1 h2
  simp at hbranch

/-- A path that has entered a join goes on by its trunk. -/
theorem encard_rests_join (ht : g.contains t.node = true) {n : Node}
    (hn : g'.node? n.id = some n) (hnew : g.contains n.id ≠ true)
    (hc : n.value.componentName = Synthesis.joinComponent) {name : PortName}
    (hname : name = "in1" ∨ name = "in2") :
    (rests g g' t ⟨n.id, name⟩).encard = (trails g g' t ⟨n.id, "to"⟩).encard := by
  have hother : Synthesis.joinComponent ≠ Synthesis.duplicateComponent := by decide
  have honward : g.onward g' ⟨n.id, name⟩ = [⟨n.id, "to"⟩] := by
    simp only [onward, hn]
    rw [if_neg hnew, if_neg (fun h => hother (hc.symm.trans h.1)), if_pos ⟨hc, hname⟩]
  rw [rests_new ht hnew, honward]
  simp [trails]

/-- The numbers of paths to an old port are weights on the expanded graph. -/
theorem flow_trails (hg : g.WellFormed) {c : Change} (h : g.expandFans.result = .ok c)
    (ht : g.contains t.node = true) :
    Flow g t (fun p => (trails g g.expandFans.graph t p).encard)
      (fun p => (rests g g.expandFans.graph t p).encard) where
  edge e he := encard_trails_source (nodup_nearEnds_expandFans hg h .outward) he
  idle p hp := by rw [trails_eq_empty hp, Set.encard_empty]
  arrived p hp := encard_rests_old hp
  duplicate b hb n hn := by
    have hrevision := revision_expandFans hg h
    have hmem := mem_nodes_of_outTree hb hn
    have hc : n.value.componentName = Synthesis.duplicateComponent := by
      rw [FanTree.eq_twoWay_of_mem_batch hn]
      rfl
    exact encard_rests_duplicate ht (hrevision.node?_of_mem_batch hmem) (hrevision.fresh hmem) hc
  join b hb n hn p hp := by
    have hrevision := revision_expandFans hg h
    have hmem := mem_nodes_of_inTree hb hn
    have hc : n.value.componentName = Synthesis.joinComponent := by
      rw [FanTree.eq_twoWay_of_mem_batch hn]
      rfl
    have hports : n.portsOn .input = [⟨n.id, "in1"⟩, ⟨n.id, "in2"⟩] :=
      FanTree.portsOn_of_mem_batch hn
    have hnode := hrevision.node?_of_mem_batch hmem
    rw [hports] at hp
    rcases List.mem_pair.mp hp with rfl | rfl
    · exact encard_rests_join ht hnode (hrevision.fresh hmem) hc (.inl rfl)
    · exact encard_rests_join ht hnode (hrevision.fresh hmem) hc (.inr rfl)

/-- Expanding fans preserves the flow of data with its multiplicities: between two old ports there
are as many paths through the new nodes as there were data edges. -/
theorem encard_trails_expandFans (hv : Validator.structural.accepts g = true) {c : Change}
    (h : g.expandFans.result = .ok c) {s : Port} (hs : g.contains s.node = true)
    (ht : g.contains t.node = true) :
    {path | Trail g g.expandFans.graph s path t}.encard = (g.dataRoutes.count ⟨s, t⟩ : ℕ) := by
  have hg := accepts_iff.mp hv
  exact (flow_trails hg h ht).leaving_eq hg h hs

/-- A node with an input `i` and an output `o`. -/
def stub (id : NodeId) (atomic : Bool) : Node :=
  .build id
    { inputs := some (.ofList [("i", .named "t")])
      outputs := some (.ofList [("o", .named "t")])
      atomic := some atomic }
    .unstated

/-- Two edges from `a` and two edges to `c`, one of which they have in common. -/
def crossing : Graph where
  nodes := .ofList [stub "a" true, stub "b" true, stub "c" true, stub "d" true]
  edges := [.between ⟨"a", "o"⟩ ⟨"c", "i"⟩, .between ⟨"a", "o"⟩ ⟨"d", "i"⟩,
    .between ⟨"b", "o"⟩ ⟨"c", "i"⟩]

/-- The one edge that lies in both fans has become one path. -/
theorem encard_trails_crossing : crossing.expandFans.result = .ok ⟨2, 3, 5⟩ ∧
    {path | Trail crossing crossing.expandFans.graph ⟨"a", "o"⟩ path ⟨"c", "i"⟩}.encard = 1 := by
  have hrun : crossing.expandFans.result = .ok ⟨2, 3, 5⟩ := by decide +kernel
  refine ⟨hrun, ?_⟩
  have htrails := encard_trails_expandFans (g := crossing) (s := ⟨"a", "o"⟩) (t := ⟨"c", "i"⟩)
    (by decide) hrun (by decide) (by decide)
  have hcount : crossing.dataRoutes.count ⟨⟨"a", "o"⟩, ⟨"c", "i"⟩⟩ = 1 := by decide
  rw [hcount, Nat.cast_one] at htrails
  exact htrails

end Graph
end PortNet
