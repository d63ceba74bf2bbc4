import PortNet.Drawing
import PortNet.Proofs.Ancestry

namespace PortNet

namespace Graph

/-- The ancestors of a node, the nearest first, if the way up from it leads to a node whose parent
is not in the graph. -/
inductive Lineage (g : Graph) : Node → List Node → Prop
  | top {n : Node} (hn : n ∈ g.nodes.toList) (htop : g.isTopLevel n = true) : Lineage g n []
  | child {n m : Node} {as : List Node} (parent : Lineage g m as) (hn : n ∈ g.children m.id) :
      Lineage g n (m :: as)

variable {g : Graph} {n m : Node} {as bs : List Node} {id : NodeId}

theorem mem_children : n ∈ g.children id ↔ n ∈ g.nodes.toList ∧ n.parent? = some id := by
  rw [children, List.mem_filter, decide_eq_true_eq]

theorem isTopLevel_iff :
    g.isTopLevel n = true ↔ ∀ q, n.parent? = some q → g.contains q = false := by
  cases hq : n.parent? with
  | none => simp [isTopLevel, hq]
  | some q => simp [isTopLevel, hq]

theorem nodup_nodes (g : Graph) : g.nodes.toList.Nodup := g.nodes.distinct.of_map

theorem eq_of_id (hn : n ∈ g.nodes.toList) (hm : m ∈ g.nodes.toList) (h : n.id = m.id) : n = m :=
  List.inj_on_of_nodup_map g.nodes.distinct hn hm h

namespace Lineage

theorem mem (h : g.Lineage n as) : n ∈ g.nodes.toList := by
  cases h with
  | top hn _ => exact hn
  | child _ hn => exact (mem_children.mp hn).1

/-- There is only one way up from a node. -/
theorem unique (h : g.Lineage n as) (h' : g.Lineage n bs) : as = bs := by
  induction h generalizing bs with
  | top hn htop =>
    cases h' with
    | top _ _ => rfl
    | child parent hc =>
      have hout := isTopLevel_iff.mp htop _ (mem_children.mp hc).2
      rw [contains_iff.mpr ⟨_, parent.mem, rfl⟩] at hout
      cases hout
  | child parent hc ih =>
    cases h' with
    | top _ htop =>
      have hout := isTopLevel_iff.mp htop _ (mem_children.mp hc).2
      rw [contains_iff.mpr ⟨_, parent.mem, rfl⟩] at hout
      cases hout
    | child parent' hc' =>
      have hid := Option.some.inj ((mem_children.mp hc).2.symm.trans (mem_children.mp hc').2)
      obtain rfl := eq_of_id parent.mem parent'.mem hid
      rw [ih parent']

/-- Each ancestor has a shorter way up. -/
theorem of_mem (h : g.Lineage n as) {a : Node} (ha : a ∈ as) :
    ∃ bs, g.Lineage a bs ∧ bs.length < as.length := by
  induction h with
  | top _ _ => cases ha
  | child parent _ ih =>
    rcases List.mem_cons.mp ha with rfl | ha
    · exact ⟨_, parent, Nat.lt_succ_self _⟩
    · obtain ⟨bs, hbs, hlt⟩ := ih ha
      exact ⟨bs, hbs, Nat.lt_succ_of_lt hlt⟩

/-- No node is met twice. -/
theorem nodup (h : g.Lineage n as) : (n :: as).Nodup := by
  have hnew : ∀ {n as}, g.Lineage n as → n ∉ as := by
    intro n as h hm
    obtain ⟨bs, hbs, hlt⟩ := h.of_mem hm
    rw [h.unique hbs] at hlt
    exact Nat.lt_irrefl _ hlt
  induction h with
  | top hn htop => simp
  | child parent hc ih => exact List.nodup_cons.mpr ⟨hnew (.child parent hc), ih⟩

theorem length_lt (h : g.Lineage n as) : as.length < g.nodes.toList.length := by
  have hsub : n :: as ⊆ g.nodes.toList := by
    intro a ha
    rcases List.mem_cons.mp ha with rfl | ha
    · exact h.mem
    · obtain ⟨_, hbs, _⟩ := h.of_mem ha
      exact hbs.mem
  have hle := h.nodup.length_le_of_subset hsub
  rwa [List.length_cons] at hle

/-- The way up meets all ancestors that are in the graph. -/
theorem mem_iff (h : g.Lineage n as) {a : Node} :
    a ∈ as ↔ a ∈ g.nodes.toList ∧ Relation.TransGen g.HasParent n.id a.id := by
  induction h with
  | @top n hn htop =>
    refine iff_of_false List.not_mem_nil fun hall => ?_
    obtain ⟨ha, hpath⟩ := hall
    obtain ⟨q, hq, hup⟩ := Relation.TransGen.head'_iff.mp hpath
    have hout := isTopLevel_iff.mp htop q ((hasParent_iff hn).mp hq)
    have hin : g.contains q = true :=
      contains_iff_mem_ids.mpr (mem_ids_of_path hup (List.mem_map.mpr ⟨a, ha, rfl⟩))
    rw [hin] at hout
    cases hout
  | @child n m as parent hc ih =>
    obtain ⟨hn, hparent⟩ := mem_children.mp hc
    have hstep : ∀ q, g.HasParent n.id q ↔ q = m.id := by
      intro q
      rw [hasParent_iff hn, hparent, Option.some.injEq, eq_comm]
    have hup : Relation.TransGen g.HasParent n.id a.id ↔
        a.id = m.id ∨ Relation.TransGen g.HasParent m.id a.id := by
      rw [Relation.TransGen.head'_iff, ← Relation.reflTransGen_iff_eq_or_transGen]
      simp only [hstep, exists_eq_left]
    rw [List.mem_cons, ih, hup]
    constructor
    · intro hall
      rcases hall with rfl | ⟨ha, hpath⟩
      · exact ⟨parent.mem, .inl rfl⟩
      · exact ⟨ha, .inr hpath⟩
    · intro hall
      obtain ⟨ha, hid | hpath⟩ := hall
      · exact .inl (eq_of_id ha parent.mem hid)
      · exact .inr ⟨ha, hpath⟩

/-- It meets them in their order. -/
theorem pairwise (h : g.Lineage n as) :
    as.Pairwise (fun a b => Relation.TransGen g.HasParent a.id b.id) := by
  induction h with
  | top _ _ => exact .nil
  | child parent _ ih => exact List.pairwise_cons.mpr ⟨fun b hb => (parent.mem_iff.mp hb).2, ih⟩

end Lineage

/-- Following its parents, one comes from a node to one whose parent is absent or not in the
graph. -/
def Grounded (g : Graph) (id : NodeId) : Prop :=
  ∃ r ∈ g.nodes.toList, Relation.ReflTransGen g.HasParent id r.id ∧
    ∀ q, r.parent? = some q → g.contains q = false

theorem exists_lineage_iff (hn : n ∈ g.nodes.toList) :
    (∃ as, g.Lineage n as) ↔ g.Grounded n.id := by
  constructor
  · intro hall
    obtain ⟨as, h⟩ := hall
    clear hn
    induction h with
    | top hn htop => exact ⟨_, hn, .refl, isTopLevel_iff.mp htop⟩
    | child _ hc ih =>
      obtain ⟨hn, hparent⟩ := mem_children.mp hc
      obtain ⟨r, hr, hpath, htop⟩ := ih
      exact ⟨r, hr, .head ((hasParent_iff hn).mpr hparent) hpath, htop⟩
  · intro hall
    obtain ⟨r, hr, hpath, htop⟩ := hall
    generalize hid : n.id = id at hpath
    induction hpath using Relation.ReflTransGen.head_induction_on generalizing n with
    | refl =>
      obtain rfl := eq_of_id hn hr hid
      exact ⟨[], .top hn (isTopLevel_iff.mpr htop)⟩
    | @head child parent hstep hup ih =>
      subst hid
      have hin : parent ∈ g.ids := mem_ids_of_path hup (List.mem_map.mpr ⟨r, hr, rfl⟩)
      obtain ⟨m, hm, rfl⟩ := List.mem_map.mp hin
      obtain ⟨as, has⟩ := ih hm rfl
      exact ⟨m :: as, .child has (mem_children.mpr ⟨hn, (hasParent_iff hn).mp hstep⟩)⟩

/-- A walk that comes to its end comes to a node whose parent is not in the graph. -/
theorem Ascent.grounded {met : List NodeId} {start : Option NodeId} {circular : Bool}
    (h : g.Ascent met start circular) (htop : circular = false) (hstart : start = some id)
    (hid : id ∈ g.ids) : g.Grounded id := by
  induction h generalizing id with
  | top _ => cases hstart
  | again _ => cases htop
  | onward _ _ ih =>
    cases hstart
    obtain ⟨n, hn, rfl⟩ := List.mem_map.mp hid
    by_cases hup : ∃ q, n.parent? = some q ∧ q ∈ g.ids
    · obtain ⟨q, hq, hmem⟩ := hup
      obtain ⟨r, hr, hpath, hout⟩ := ih htop ((parent?_of_mem hn).trans hq) hmem
      exact ⟨r, hr, .head ((hasParent_iff hn).mpr hq) hpath, hout⟩
    · refine ⟨n, hn, .refl, fun q hq => Bool.eq_false_iff.mpr fun hc => hup ⟨q, hq, ?_⟩⟩
      exact contains_iff_mem_ids.mp hc

/-- There is no way up to the top from the nodes on and below circles, and from no others. -/
theorem not_grounded_iff (hid : id ∈ g.ids) : ¬ g.Grounded id ↔
    ∃ a, Relation.ReflTransGen g.HasParent id a ∧ Relation.TransGen g.HasParent a a := by
  constructor
  · intro hnot
    obtain ⟨circular, h⟩ := exists_ascent g [] (some id)
    cases circular with
    | false => exact absurd (h.grounded rfl rfl hid) hnot
    | true => exact h.exists_circle rfl rfl fun m hm => nomatch hm
  · intro hall hgrounded
    obtain ⟨a, hpath, hcircle⟩ := hall
    obtain ⟨q, hstep, _⟩ := Relation.TransGen.head'_iff.mp hcircle
    obtain ⟨m, hm, rfl⟩ := List.mem_map.mp (mem_ids_of_hasParent hstep)
    obtain ⟨n, hn, rfl⟩ := List.mem_map.mp hid
    obtain ⟨as, has⟩ := (exists_lineage_iff hn).mpr hgrounded
    have hlineage : ∃ bs, g.Lineage m bs := by
      rcases Relation.reflTransGen_iff_eq_or_transGen.mp hpath with heq | hup
      · obtain rfl := eq_of_id hm hn heq
        exact ⟨as, has⟩
      · obtain ⟨bs, hbs, _⟩ := has.of_mem (has.mem_iff.mpr ⟨hm, hup⟩)
        exact ⟨bs, hbs⟩
    obtain ⟨bs, hbs⟩ := hlineage
    exact (List.nodup_cons.mp hbs.nodup).1 (hbs.mem_iff.mpr ⟨hm, hcircle⟩)

/-- In an accepted graph the way up from every node leads to the top. -/
theorem WellFormed.grounded (hg : g.WellFormed) (hn : n ∈ g.nodes.toList) : g.Grounded n.id := by
  have hend : g.climbs (g.nodes.toList.length + 1) (some n.id) = false := hg.forest n hn
  obtain ⟨r, hr, htop, hpath⟩ :=
    exists_root_of_climbs hg.parents hend (contains_iff.mpr ⟨n, hn, rfl⟩)
  exact ⟨r, hr, hpath, fun q hq => nomatch htop.symm.trans hq⟩

/-- Going down from child to child comes to an end below any node that has a way up: each step makes
the way up longer, and it is never longer than the list of nodes. -/
theorem Lineage.acc (h : g.Lineage n as) : Acc (fun c n => c ∈ g.children n.id) n := by
  induction hsize : g.nodes.toList.length - as.length using Nat.strongRecOn generalizing n as with
  | ind size ih =>
    refine .intro n fun c hc => ih _ ?_ (h.child hc) rfl
    have hlt := h.length_lt
    rw [List.length_cons]
    omega

/-- What a node has if all its children have it, all nodes have that have a way up. -/
theorem Lineage.descend {motive : ∀ n as, g.Lineage n as → Prop}
    (node : ∀ n as (h : g.Lineage n as),
      (∀ c (hc : c ∈ g.children n.id), motive c (n :: as) (h.child hc)) → motive n as h)
    (h : g.Lineage n as) : motive n as h := by
  induction h.acc generalizing as with
  | intro n _ ih => exact node n as h fun c hc => ih c hc (h.child hc)

/-- The outline of the whole depth that a drawing goes down to. -/
def outlined (g : Graph) (n : Node) : Outline := g.outline g.nodes.toList.length n

theorem outline_succ (h : g.Lineage n as) {depth : Nat}
    (hdepth : g.nodes.toList.length ≤ depth + as.length) :
    g.outline (depth + 1) n = g.outline depth n := by
  induction depth generalizing n as with
  | zero =>
    have hlt := h.length_lt
    omega
  | succ depth ih =>
    rw [outline, outline, Outline.item.injEq]
    refine ⟨rfl, List.map_congr_left fun c hc => ih (h.child hc) ?_⟩
    rw [List.length_cons]
    omega

/-- At a depth of as many steps as there are nodes, no outline is cut off. -/
theorem outline_eq (h : g.Lineage n as) {depth : Nat} (hdepth : g.nodes.toList.length ≤ depth) :
    g.outline depth n = .item n ((g.children n.id).map (g.outline depth)) := by
  cases depth with
  | zero => exact absurd (Nat.lt_of_lt_of_le h.length_lt hdepth) (Nat.not_lt_zero _)
  | succ depth =>
    rw [outline, Outline.item.injEq]
    refine ⟨rfl, List.map_congr_left fun c hc => (outline_succ (h.child hc) ?_).symm⟩
    rw [List.length_cons]
    omega

theorem outlined_eq (h : g.Lineage n as) :
    g.outlined n = .item n ((g.children n.id).map g.outlined) :=
  outline_eq h (Nat.le_refl _)

end Graph

mutual

/-- The nodes of an outline in the order in which they are drawn, each with the nodes whose clusters
it is drawn in, the innermost first. A node with others inside is drawn in its own cluster. -/
def Outline.placed (within : List Node) : Outline → List (List Node × Node)
  | .item n [] => [(within, n)]
  | .item n (child :: children) => (n :: within, n) ::
    (child.placed (n :: within) ++ placedAll (n :: within) children)

def placedAll (within : List Node) : List Outline → List (List Node × Node)
  | [] => []
  | o :: os => o.placed within ++ placedAll within os

end

theorem placedAll_eq_flatMap (within : List Node) (os : List Outline) :
    placedAll within os = os.flatMap (Outline.placed within) := by
  induction os with
  | nil => rfl
  | cons o os ih => rw [placedAll, ih, List.flatMap_cons]

namespace Graph

/-- The nodes whose clusters a node is drawn in: its ancestors, and itself if it has children. -/
def clustersOf (g : Graph) (n : Node) (as : List Node) : List Node :=
  if (g.children n.id).isEmpty then as else n :: as

/-- Where the nodes of a graph are drawn. -/
def placements (g : Graph) : List (List Node × Node) := placedAll [] g.forest

variable {g : Graph} {n m c : Node} {as ws : List Node}

theorem placed_outlined (h : g.Lineage n as) : (g.outlined n).placed as = (g.clustersOf n as, n) ::
    (g.children n.id).flatMap (fun c => (g.outlined c).placed (n :: as)) := by
  rw [outlined_eq h, clustersOf]
  cases g.children n.id with
  | nil => rfl
  | cons child children =>
    rw [List.map_cons, Outline.placed, placedAll_eq_flatMap, List.flatMap_map]
    rfl

theorem placements_eq_flatMap (g : Graph) : g.placements =
    (g.nodes.toList.filter g.isTopLevel).flatMap (fun n => (g.outlined n).placed []) := by
  rw [placements, placedAll_eq_flatMap, forest, List.flatMap_map]
  rfl

/-- What is drawn for a node are nodes below it, in the clusters of their ancestors. -/
theorem lineage_of_mem_placed (h : g.Lineage n as) (hm : (ws, m) ∈ (g.outlined n).placed as) :
    ∃ bs, g.Lineage m bs ∧ ws = g.clustersOf m bs ∧ (n :: as) <:+ (m :: bs) := by
  induction h using Lineage.descend with
  | node n as h ih =>
    rw [placed_outlined h, List.mem_cons, List.mem_flatMap] at hm
    rcases hm with heq | ⟨c, hc, hm⟩
    · obtain ⟨rfl, rfl⟩ := Prod.mk.inj heq
      exact ⟨as, h, rfl, List.suffix_refl _⟩
    · obtain ⟨bs, hbs, hws, hsuffix⟩ := ih c hc hm
      exact ⟨bs, hbs, hws, (List.suffix_cons c _).trans hsuffix⟩

theorem self_mem_placed (h : g.Lineage n as) :
    (g.clustersOf n as, n) ∈ (g.outlined n).placed as := by
  rw [placed_outlined h]
  exact List.mem_cons_self

/-- With a node its children are drawn. -/
theorem child_mem_placed (h : g.Lineage n as) (hm : (ws, m) ∈ (g.outlined n).placed as)
    (hc : c ∈ g.children m.id) : ∃ ws, (ws, c) ∈ (g.outlined n).placed as := by
  induction h using Lineage.descend with
  | node n as h ih =>
    rw [placed_outlined h, List.mem_cons, List.mem_flatMap] at hm
    simp only [placed_outlined h, List.mem_cons, List.mem_flatMap]
    rcases hm with heq | ⟨b, hb, hm⟩
    · obtain ⟨_, rfl⟩ := Prod.mk.inj heq
      exact ⟨_, .inr ⟨c, hc, self_mem_placed (h.child hc)⟩⟩
    · obtain ⟨ws, hws⟩ := ih b hb hm
      exact ⟨ws, .inr ⟨b, hb, hws⟩⟩

/-- Nodes in one place have nothing below them in common: where two of them are met on the way up
from there, they are met at the same distance from the top. -/
theorem nodup_flatMap_placed {ns : List Node} (hns : ns.Nodup) (hup : ∀ n ∈ ns, g.Lineage n as)
    (hnodup : ∀ n ∈ ns, (((g.outlined n).placed as).map Prod.snd).Nodup) :
    ((ns.flatMap (fun n => (g.outlined n).placed as)).map Prod.snd).Nodup := by
  rw [List.map_flatMap, List.nodup_flatMap]
  refine ⟨hnodup, hns.imp_of_mem fun {a b} ha hb hne => ?_⟩
  intro m hma hmb
  obtain ⟨p, hpa, rfl⟩ := List.mem_map.mp hma
  obtain ⟨q, hqb, heq⟩ := List.mem_map.mp hmb
  obtain ⟨bs, hbs, _, hsuffix⟩ := lineage_of_mem_placed (hup a ha) hpa
  obtain ⟨bs', hbs', _, hsuffix'⟩ := lineage_of_mem_placed (hup b hb) hqb
  rw [heq] at hbs' hsuffix'
  rw [hbs'.unique hbs] at hsuffix'
  have hsame := (List.suffix_of_suffix_length_le hsuffix hsuffix' (Nat.le_refl _)).eq_of_length rfl
  exact hne (List.cons.inj hsame).1

/-- No node is drawn twice. -/
theorem nodup_placed (h : g.Lineage n as) : (((g.outlined n).placed as).map Prod.snd).Nodup := by
  induction h using Lineage.descend with
  | node n as h ih =>
    have hrest := nodup_flatMap_placed (g.nodup_nodes.filter _) (fun c hc => h.child hc) ih
    rw [placed_outlined h, List.map_cons, List.nodup_cons]
    refine ⟨fun hm => ?_, hrest⟩
    obtain ⟨p, hp, heq⟩ := List.mem_map.mp hm
    obtain ⟨c, hc, hp⟩ := List.mem_flatMap.mp hp
    obtain ⟨bs, hbs, _, hsuffix⟩ := lineage_of_mem_placed (h.child hc) hp
    rw [heq] at hbs hsuffix
    have hle := hsuffix.length_le
    simp only [h.unique hbs, List.length_cons] at hle
    omega

theorem lineage_of_mem_topLevel (hn : n ∈ g.nodes.toList.filter g.isTopLevel) :
    g.Lineage n [] :=
  .top (List.mem_filter.mp hn).1 (List.mem_filter.mp hn).2

theorem nodup_placements (g : Graph) : (g.placements.map Prod.snd).Nodup := by
  rw [placements_eq_flatMap]
  exact nodup_flatMap_placed (g.nodup_nodes.filter _) (fun n hn => lineage_of_mem_topLevel hn)
    fun n hn => nodup_placed (lineage_of_mem_topLevel hn)

theorem exists_mem_placements (h : g.Lineage n as) : ∃ ws, (ws, n) ∈ g.placements := by
  simp only [placements_eq_flatMap, List.mem_flatMap]
  induction h with
  | @top n hn htop =>
    exact ⟨_, n, List.mem_filter.mpr ⟨hn, htop⟩, self_mem_placed (.top hn htop)⟩
  | child parent hc ih =>
    obtain ⟨ws, r, hr, hm⟩ := ih
    obtain ⟨ws', hm'⟩ := child_mem_placed (lineage_of_mem_topLevel hr) hm hc
    exact ⟨ws', r, hr, hm'⟩

/-- A node is drawn if there is a way up from it, and then in the clusters of the nodes on that
way. -/
theorem mem_placements_iff :
    (ws, n) ∈ g.placements ↔ ∃ as, g.Lineage n as ∧ ws = g.clustersOf n as := by
  have hsound : ∀ {ws}, (ws, n) ∈ g.placements → ∃ as, g.Lineage n as ∧ ws = g.clustersOf n as := by
    intro ws hm
    rw [placements_eq_flatMap] at hm
    obtain ⟨r, hr, hm⟩ := List.mem_flatMap.mp hm
    obtain ⟨as, has, hws, _⟩ := lineage_of_mem_placed (lineage_of_mem_topLevel hr) hm
    exact ⟨as, has, hws⟩
  refine ⟨hsound, fun hall => ?_⟩
  obtain ⟨as, has, rfl⟩ := hall
  obtain ⟨ws, hm⟩ := exists_mem_placements has
  obtain ⟨bs, hbs, hws⟩ := hsound hm
  rwa [hws, hbs.unique has] at hm

end Graph
end PortNet
