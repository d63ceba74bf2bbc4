import Mathlib.Logic.Relation
import PortNet.Proofs.WellFormed

namespace PortNet
namespace Graph

def HasParent (g : Graph) (child parent : NodeId) : Prop := g.parent? child = some parent

/-- A walk from parent to parent that keeps the nodes it has met in mind. It is over at the top, or
where it comes to a node that it has met before, and the flag tells the two ends apart. -/
inductive Ascent (g : Graph) : List NodeId → Option NodeId → Bool → Prop
  | top (met : List NodeId) : Ascent g met none false
  | again {met : List NodeId} {id : NodeId} (h : id ∈ met) : Ascent g met (some id) true
  | onward {met : List NodeId} {id : NodeId} {circular : Bool} (h : id ∉ met)
      (rest : Ascent g (id :: met) (g.parent? id) circular) : Ascent g met (some id) circular

/-- The nodes of the graph that a walk has not met yet. -/
def unmet (g : Graph) (met : List NodeId) : List NodeId := g.ids.filter (fun id => id ∉ met)

variable {g : Graph} {id : NodeId} {met : List NodeId} {start : Option NodeId} {circular : Bool}

theorem length_unmet_lt (hid : id ∈ g.ids) (hnew : id ∉ met) :
    (g.unmet (id :: met)).length < (g.unmet met).length := by
  have hsplit : g.unmet (id :: met) = (g.unmet met).filter (fun other => other ≠ id) := by
    rw [unmet, unmet, List.filter_filter]
    apply List.filter_congr
    intro other _
    simp
  rw [hsplit]
  refine List.length_filter_lt_length_iff_exists.mpr ⟨id, ?_, by simp⟩
  exact List.mem_filter.mpr ⟨hid, by simpa using hnew⟩

/-- What is not a node of the graph has no parent. -/
theorem mem_ids_of_hasParent {q : NodeId} (h : g.HasParent id q) : id ∈ g.ids := by
  obtain ⟨n, hn, _⟩ := Option.bind_eq_some_iff.mp h
  obtain ⟨hmem, rfl⟩ := node?_eq_some_iff.mp hn
  exact List.mem_map.mpr ⟨n, hmem, rfl⟩

/-- The way up to a node begins at a node. -/
theorem mem_ids_of_path {q : NodeId} (hup : Relation.ReflTransGen g.HasParent id q)
    (hq : q ∈ g.ids) : id ∈ g.ids := by
  rcases hup.cases_head with rfl | ⟨r, hr, _⟩
  · exact hq
  · exact mem_ids_of_hasParent hr

theorem parent?_eq_none_of_not_mem (h : id ∉ g.ids) : g.parent? id = none := by
  cases hq : g.parent? id with
  | none => rfl
  | some q => exact absurd (mem_ids_of_hasParent hq) h

theorem parent?_of_mem {n : Node} (hn : n ∈ g.nodes.toList) : g.parent? n.id = n.parent? := by
  rw [parent?, node?_of_mem hn, Option.bind_some]

theorem hasParent_iff {n : Node} (hn : n ∈ g.nodes.toList) {q : NodeId} :
    g.HasParent n.id q ↔ n.parent? = some q := by
  rw [HasParent, parent?_of_mem hn]

/-- Every walk comes to its end, since each step takes it to the top or to one more of finitely many
nodes. -/
theorem exists_ascent (g : Graph) (met : List NodeId) (start : Option NodeId) :
    ∃ circular, g.Ascent met start circular := by
  induction hsize : (g.unmet met).length using Nat.strongRecOn generalizing met start with
  | ind size ih =>
    cases start with
    | none => exact ⟨false, .top met⟩
    | some id =>
      by_cases hmet : id ∈ met
      · exact ⟨true, .again hmet⟩
      by_cases hid : id ∈ g.ids
      · obtain ⟨circular, hrest⟩ :=
          ih _ (hsize ▸ length_unmet_lt hid hmet) (id :: met) (g.parent? id) rfl
        exact ⟨circular, .onward hmet hrest⟩
      · have htop := parent?_eq_none_of_not_mem hid
        exact ⟨false, .onward hmet (htop ▸ .top _)⟩

/-- A walk that came to the top took at most one step for each node that it had not met, and one
more if it left the graph. -/
theorem Ascent.climbs_eq_false (h : g.Ascent met start circular) (htop : circular = false) :
    g.climbs ((g.unmet met).length + 1) start = false := by
  induction h with
  | top met => rfl
  | again hmet => cases htop
  | @onward met id circular hnew rest ih =>
    rw [climbs]
    by_cases hid : id ∈ g.ids
    · exact climbs_mono (length_unmet_lt hid hnew) (ih htop)
    · rw [parent?_eq_none_of_not_mem hid, climbs]

/-- A walk that comes to a circle goes on for ever. -/
theorem climbs_of_circle {a : NodeId} (hup : Relation.ReflTransGen g.HasParent id a)
    (h : Relation.TransGen g.HasParent a a) (steps : Nat) : g.climbs steps (some id) = true := by
  induction steps generalizing id with
  | zero => rfl
  | succ steps ih =>
    obtain ⟨q, hq, hrest⟩ := Relation.TransGen.head'_iff.mp (Relation.TransGen.trans_right hup h)
    have hparent : g.parent? id = some q := hq
    rw [climbs, hparent]
    exact ih hrest

/-- A walk that comes back to a node that it has met has come to a circle. -/
theorem Ascent.exists_circle (h : g.Ascent met start circular) (hback : circular = true)
    (hstart : start = some id) (hmet : ∀ m ∈ met, Relation.TransGen g.HasParent m id) :
    ∃ a, Relation.ReflTransGen g.HasParent id a ∧ Relation.TransGen g.HasParent a a := by
  induction h generalizing id with
  | top _ => cases hback
  | @again met first hm =>
    cases hstart
    exact ⟨first, .refl, hmet first hm⟩
  | @onward met first circular _ rest ih =>
    cases hstart
    cases hq : g.parent? first with
    | none =>
      rw [hq] at rest
      cases rest
      cases hback
    | some q =>
      have hstep : g.HasParent first q := hq
      obtain ⟨a, hpath, hcircle⟩ := ih hback hq fun m hm => by
        rcases List.mem_cons.mp hm with rfl | hm
        · exact .single hstep
        · exact (hmet m hm).tail hstep
      exact ⟨a, .head hstep hpath, hcircle⟩

theorem exists_circle_of_ascent (h : g.Ascent [id] (g.parent? id) true) :
    ∃ a, Relation.ReflTransGen g.HasParent id a ∧ Relation.TransGen g.HasParent a a := by
  cases hq : g.parent? id with
  | none =>
    rw [hq] at h
    cases h
  | some q =>
    obtain ⟨a, hpath, hcircle⟩ := h.exists_circle rfl hq fun m hm => by
      obtain rfl := List.mem_singleton.mp hm
      exact .single hq
    exact ⟨a, .head hq hpath, hcircle⟩

theorem climbs_of_ascent (h : g.Ascent [id] (g.parent? id) true) (steps : Nat) :
    g.climbs steps (g.parent? id) = true := by
  obtain ⟨a, hpath, hcircle⟩ := exists_circle_of_ascent h
  exact climbs_of_circle hpath hcircle (steps + 1)

theorem climbsForever_of_ascent (h : g.Ascent [id] (g.parent? id) false) :
    g.climbsForever id = false := by
  by_cases hid : id ∈ g.ids
  · have hlength : (g.unmet [id]).length + 1 ≤ g.nodes.toList.length := by
      have hlt := length_unmet_lt hid (List.not_mem_nil (a := id))
      have hle := List.length_filter_le (fun other => decide (other ∉ ([] : List NodeId))) g.ids
      rw [ids, List.length_map, ← ids] at hle
      exact Nat.lt_of_lt_of_le hlt hle
    exact climbs_mono hlength (h.climbs_eq_false rfl)
  · rw [climbsForever, parent?_eq_none_of_not_mem hid]
    cases g.nodes.toList.length <;> rfl

/-- The walk that remembers ends in exactly one way, and as many steps as there are nodes are enough
to tell which. -/
theorem ascent_iff : g.Ascent [id] (g.parent? id) circular ↔ circular = g.climbsForever id := by
  have hverdict : ∀ {circular}, g.Ascent [id] (g.parent? id) circular →
      circular = g.climbsForever id := by
    intro circular h
    cases circular with
    | true => exact (climbs_of_ascent h _).symm
    | false => exact (climbsForever_of_ascent h).symm
  refine ⟨hverdict, fun h => ?_⟩
  obtain ⟨found, hfound⟩ := exists_ascent g [id] (g.parent? id)
  rwa [h, ← hverdict hfound]

/-- A walk that does not end within as many steps as there are nodes never ends. -/
theorem climbsForever_iff :
    g.climbsForever id = true ↔ ∀ steps, g.climbs steps (g.parent? id) = true :=
  ⟨fun h => climbs_of_ascent (ascent_iff.mpr h.symm), fun h => h _⟩

/-- The walk from a node goes on for ever exactly if it comes to a circle. -/
theorem climbsForever_iff_circle : g.climbsForever id = true ↔
    ∃ a, Relation.ReflTransGen g.HasParent id a ∧ Relation.TransGen g.HasParent a a := by
  refine ⟨fun h => exists_circle_of_ascent (ascent_iff.mpr h.symm), fun hall => ?_⟩
  obtain ⟨a, hpath, hcircle⟩ := hall
  exact climbs_of_circle hpath hcircle (g.nodes.toList.length + 1)

/-- In a well-formed graph no node is its own ancestor. -/
theorem WellFormed.not_circle (hg : g.WellFormed) (id : NodeId) :
    ¬ Relation.TransGen g.HasParent id id := by
  intro hcircle
  obtain ⟨q, hq, _⟩ := Relation.TransGen.head'_iff.mp hcircle
  obtain ⟨n, hn, rfl⟩ := List.mem_map.mp (mem_ids_of_hasParent hq)
  have hforever := climbsForever_iff_circle.mpr ⟨n.id, .refl, hcircle⟩
  rw [hg.forest n hn] at hforever
  cases hforever

/-- Among known parents a walk can only end at a node without one. -/
theorem exists_root_of_climbs
    (hparents : ∀ n ∈ g.nodes.toList, ∀ q, n.parent? = some q → g.contains q = true) {steps : Nat}
    (hend : g.climbs steps (some id) = false) (hc : g.contains id = true) :
    ∃ root ∈ g.nodes.toList, root.parent? = none ∧
      Relation.ReflTransGen g.HasParent id root.id := by
  induction steps generalizing id with
  | zero => cases hend
  | succ steps ih =>
    obtain ⟨n, hn, rfl⟩ := contains_iff.mp hc
    have hparent := parent?_of_mem hn
    rw [climbs, hparent] at hend
    cases hq : n.parent? with
    | none => exact ⟨n, hn, hq, .refl⟩
    | some q =>
      rw [hq] at hend
      obtain ⟨root, hroot, htop, hpath⟩ := ih hend (hparents n hn q hq)
      exact ⟨root, hroot, htop, .head (hparent.trans hq) hpath⟩

theorem exists_climbs_of_path {root : NodeId} (hpath : Relation.ReflTransGen g.HasParent id root)
    (htop : g.parent? root = none) : ∃ steps, g.climbs steps (g.parent? id) = false := by
  induction hpath using Relation.ReflTransGen.head_induction_on with
  | refl => exact ⟨0, by rw [htop, climbs]⟩
  | @head child parent hstep _ ih =>
    obtain ⟨steps, hend⟩ := ih
    have hparent : g.parent? child = some parent := hstep
    exact ⟨steps + 1, by rwa [hparent, climbs]⟩

theorem declares_iff {p : Port} : g.Declares p ↔
    ∃ n ∈ g.nodes.toList, n.id = p.node ∧ (p.name ∈ n.inputs.keys ∨ p.name ∈ n.outputs.keys) := by
  simp only [Declares, node?_eq_some_iff, NodeValue.declares, Bool.or_eq_true, Table.contains_iff,
    and_assoc]
  rfl

/-- The walk to the ancestors of a node ends, at the top or where it meets a node again. A graph is
accepted exactly if its edges join ports that are declared on one of the sides of their nodes, all
parents are nodes, and from every node the way leads up to one without a parent. -/
theorem accepts_iff_forest (g : Graph) :
    (∀ id circular, g.Ascent [id] (g.parent? id) circular ↔ circular = g.climbsForever id) ∧
    (Validator.structural.accepts g = true ↔
      (∀ e ∈ g.edges, ∀ p ∈ [e.source, e.target], ∃ n ∈ g.nodes.toList, n.id = p.node ∧
        (p.name ∈ n.inputs.keys ∨ p.name ∈ n.outputs.keys)) ∧
      (∀ n ∈ g.nodes.toList, ∀ q, n.parent? = some q → ∃ m ∈ g.nodes.toList, m.id = q) ∧
      ∀ n ∈ g.nodes.toList, ∃ root ∈ g.nodes.toList, root.parent? = none ∧
        Relation.ReflTransGen g.HasParent n.id root.id) := by
  refine ⟨fun _ _ => ascent_iff, ?_⟩
  simp only [accepts_iff, ← declares_iff, ← contains_iff, List.mem_cons, List.not_mem_nil, or_false,
    forall_eq_or_imp, forall_eq]
  constructor
  · intro hg
    refine ⟨hg.ends, hg.parents, fun n hn => ?_⟩
    have hend : g.climbs (g.nodes.toList.length + 1) (some n.id) = false := hg.forest n hn
    exact exists_root_of_climbs hg.parents hend (contains_iff.mpr ⟨n, hn, rfl⟩)
  · intro hall
    obtain ⟨hends, hparents, hroots⟩ := hall
    refine ⟨hends, hparents, fun n hn => ?_⟩
    obtain ⟨root, hroot, htop, hpath⟩ := hroots n hn
    have hnone : g.parent? root.id = none := by
      rw [parent?, node?_of_mem hroot, Option.bind_some, htop]
    obtain ⟨steps, hend⟩ := exists_climbs_of_path hpath hnone
    refine Bool.eq_false_iff.mpr fun hforever => ?_
    rw [climbsForever_iff.mp hforever steps] at hend
    cases hend

end Graph
end PortNet
