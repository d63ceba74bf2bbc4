import PortNet.Proofs.Ancestry

namespace PortNet

/-- Members that are kept keep their places. -/
theorem map_filterMap_sublist {α β κ : Type} {f : α → Option β} {key : β → κ} {name : α → κ}
    (h : ∀ x y, f x = some y → key y = name x) (xs : List α) :
    ((xs.filterMap f).map key).Sublist (xs.map name) := by
  induction xs with
  | nil => exact .slnil
  | cons x xs ih =>
    cases hx : f x with
    | none =>
      rw [List.filterMap_cons_none hx]
      exact ih.cons _
    | some y =>
      rw [List.filterMap_cons_some hx, List.map_cons, h x y hx]
      exact ih.cons_cons _

namespace Graph

/-- Going up from the node, one comes back to it. -/
def OnCircle (g : Graph) (id : NodeId) : Prop := Relation.TransGen g.HasParent id id

/-- Going up from the node, one comes to a circle, but not back to the node. -/
def BelowCircle (g : Graph) (id : NodeId) : Prop :=
  ¬ g.OnCircle id ∧ ∃ a, Relation.TransGen g.HasParent id a ∧ g.OnCircle a

/-- What is wrong with the parents of the nodes. -/
def parentProblems (g : Graph) : List Problem := g.nodes.toList.filterMap g.parentProblem?

/-- A problem with the parents of a node is located at the node. -/
def parentProblemsOf (g : Graph) (id : NodeId) : List Problem :=
  g.parentProblems.filter (fun p => p.location = some ⟨id, none⟩)

/-- The nodes with unknown parents are reported as such, certain others as their own ancestors, and
each of them once. Nothing is said about the rest. -/
structure Reports (g : Graph) (ownAncestor : NodeId → Prop) : Prop where
  unknown : ∀ id q, g.HasParent id q → q ∉ g.ids → g.parentProblemsOf id = [.unknownParent id q]
  circular : ∀ id, ownAncestor id → g.parentProblemsOf id = [.ownAncestor id]
  silent : ∀ id, (∀ q, g.HasParent id q → q ∈ g.ids) → ¬ ownAncestor id →
    g.parentProblemsOf id = []

variable {g : Graph} {n : Node} {id q : NodeId} {p : Problem}

theorem exists_circle_iff :
    (∃ a, Relation.ReflTransGen g.HasParent id a ∧ Relation.TransGen g.HasParent a a) ↔
      g.OnCircle id ∨ g.BelowCircle id := by
  constructor
  · rintro ⟨a, hup, hcircle⟩
    by_cases hon : g.OnCircle id
    · exact .inl hon
    rcases Relation.reflTransGen_iff_eq_or_transGen.mp hup with rfl | hup
    · exact .inl hcircle
    · exact .inr ⟨hon, a, hup, hcircle⟩
  · rintro (hon | ⟨_, a, hup, hcircle⟩)
    · exact ⟨id, .refl, hon⟩
    · exact ⟨a, hup.to_reflTransGen, hcircle⟩

/-- The parents of nodes on and below circles are in the graph, for they have parents in turn. -/
theorem mem_ids_of_circle (h : g.OnCircle id ∨ g.BelowCircle id) (hq : g.HasParent id q) :
    q ∈ g.ids := by
  obtain ⟨a, hup, hcircle⟩ := exists_circle_iff.mpr h
  obtain ⟨_, hnext, _⟩ := Relation.TransGen.head'_iff.mp hcircle
  obtain ⟨r, hr, hrest⟩ := Relation.TransGen.head'_iff.mp (Relation.TransGen.trans_right hup hcircle)
  obtain rfl : q = r := Option.some.inj (hq.symm.trans hr)
  exact mem_ids_of_path hrest (mem_ids_of_hasParent hnext)

theorem parentProblem?_unknown (hq : n.parent? = some q) (hout : q ∉ g.ids) :
    g.parentProblem? n = some (.unknownParent n.id q) := by
  have hc : g.contains q = false := Bool.eq_false_iff.mpr fun hc => hout (contains_iff_mem_ids.mp hc)
  simp [parentProblem?, hq, hc, Option.filter_some]

theorem parentProblem?_known (h : ∀ q, n.parent? = some q → q ∈ g.ids) :
    g.parentProblem? n = if g.climbsForever n.id then some (.ownAncestor n.id) else none := by
  have hknown : n.parent?.filter (fun parent => !g.contains parent) = none := by
    refine Option.filter_eq_none_iff.mpr fun q hq => ?_
    simp [contains_iff_mem_ids.mpr (h q hq)]
  rw [parentProblem?, hknown]

theorem location_of_parentProblem? (n : Node) (p : Problem) (h : g.parentProblem? n = some p) :
    p.location = some ⟨n.id, none⟩ := by
  rw [parentProblem?] at h
  split at h
  · cases h
    rfl
  · split at h
    · cases h
      rfl
    · cases h

/-- The problems come in the order of the nodes, and there is at most one for each. -/
theorem location_parentProblems_sublist (g : Graph) :
    (g.parentProblems.map Problem.location).Sublist (g.ids.map (fun id => some ⟨id, none⟩)) := by
  rw [ids, List.map_map]
  exact map_filterMap_sublist location_of_parentProblem? _

theorem nodup_location_parentProblems (g : Graph) :
    (g.parentProblems.map Problem.location).Nodup := by
  refine g.location_parentProblems_sublist.nodup (g.nodes.distinct.map fun a b h => ?_)
  simpa using h

theorem parentProblemsOf_of_mem (hn : n ∈ g.nodes.toList) :
    g.parentProblemsOf n.id = (g.parentProblem? n).toList := by
  cases hp : g.parentProblem? n with
  | some p =>
    have hmem : p ∈ g.parentProblems := List.mem_filterMap.mpr ⟨n, hn, hp⟩
    have hone := filter_eq_of_nodup_map g.nodup_location_parentProblems hmem
    rwa [location_of_parentProblem? n p hp] at hone
  | none =>
    -- A problem located at this node is one with its own parents, since ids are distinct.
    refine List.filter_eq_nil_iff.mpr fun p hmem hlocated => ?_
    obtain ⟨m, hm, hproblem⟩ := List.mem_filterMap.mp hmem
    have hid : m.id = n.id := by
      simpa [location_of_parentProblem? m p hproblem] using hlocated
    rw [List.inj_on_of_nodup_map g.nodes.distinct hm hn hid, hp] at hproblem
    cases hproblem

theorem parentProblemsOf_of_not_mem (h : id ∉ g.ids) : g.parentProblemsOf id = [] := by
  refine List.filter_eq_nil_iff.mpr fun p hp hlocated => ?_
  obtain ⟨n, hn, hproblem⟩ := List.mem_filterMap.mp hp
  refine h (List.mem_map.mpr ⟨n, hn, ?_⟩)
  simpa [location_of_parentProblem? n p hproblem] using hlocated

theorem parentProblemsOf_known (hn : n ∈ g.nodes.toList)
    (h : ∀ q, g.HasParent n.id q → q ∈ g.ids) :
    g.parentProblemsOf n.id = if g.climbsForever n.id then [.ownAncestor n.id] else [] := by
  rw [parentProblemsOf_of_mem hn,
    parentProblem?_known fun q hq => h q ((hasParent_iff hn).mpr hq)]
  split <;> rfl

/-- The nodes below circles are taken for their own ancestors. -/
theorem reports (g : Graph) : g.Reports (fun id => g.OnCircle id ∨ g.BelowCircle id) where
  unknown id q hq hout := by
    obtain ⟨n, hn, rfl⟩ := List.mem_map.mp (mem_ids_of_hasParent hq)
    rw [parentProblemsOf_of_mem hn, parentProblem?_unknown ((hasParent_iff hn).mp hq) hout]
    rfl
  circular id h := by
    obtain ⟨a, hup, hcircle⟩ := exists_circle_iff.mpr h
    obtain ⟨_, hnext, _⟩ := Relation.TransGen.head'_iff.mp hcircle
    obtain ⟨n, hn, rfl⟩ := List.mem_map.mp (mem_ids_of_path hup (mem_ids_of_hasParent hnext))
    have hforever := climbsForever_iff_circle.mpr ⟨a, hup, hcircle⟩
    rw [parentProblemsOf_known hn fun _ => mem_ids_of_circle h, if_pos hforever]
  silent id hknown h := by
    by_cases hid : id ∈ g.ids
    · obtain ⟨n, hn, rfl⟩ := List.mem_map.mp hid
      have hends : ¬ g.climbsForever n.id = true := fun hforever =>
        h (exists_circle_iff.mp (climbsForever_iff_circle.mp hforever))
      rw [parentProblemsOf_known hn hknown, if_neg hends]
    · exact parentProblemsOf_of_not_mem hid

theorem reports_onCircle_iff : g.Reports g.OnCircle ↔ ∀ id, ¬ g.BelowCircle id := by
  constructor
  · intro h id hbelow
    have hnamed := g.reports.circular id (.inr hbelow)
    rw [h.silent id (fun _ => mem_ids_of_circle (.inr hbelow)) hbelow.1] at hnamed
    cases hnamed
  · intro hnone
    have hsame : (fun id => g.OnCircle id ∨ g.BelowCircle id) = g.OnCircle :=
      funext fun id => propext (or_iff_left (hnone id))
    exact hsame ▸ g.reports

/-- The check of the parents comes before that of the edges, and says at most one thing of each
node, in their order. It finds all unknown parents and all nodes that are their own ancestors. It
says the same of the nodes that are below such nodes without being one of them, and of no others,
so that it is right about all nodes exactly if there are none below circles. -/
theorem parentProblems_reported (g : Graph) :
    Validator.structural.problems g = g.parentProblems ++ g.edges.flatMap g.edgeProblems ∧
    (g.parentProblems.map Problem.location).Sublist (g.ids.map (fun id => some ⟨id, none⟩)) ∧
    g.Reports (fun id => g.OnCircle id ∨ g.BelowCircle id) ∧
    (g.Reports g.OnCircle ↔ ∀ id, ¬ g.BelowCircle id) :=
  ⟨rfl, g.location_parentProblems_sublist, g.reports, reports_onCircle_iff⟩

/-- Two nodes inside each other, and one inside the first of them. -/
def overhang : Graph where
  nodes := .ofList [
    .build "a" {} (.inside "b"), .build "b" {} (.inside "a"), .build "c" {} (.inside "a")]

/-- Nothing is inside the third node, and it is said to be its own ancestor. -/
theorem not_reports_overhang : (∀ id, ¬ overhang.HasParent id "c") ∧ ¬ overhang.OnCircle "c" ∧
    overhang.parentProblemsOf "c" = [.ownAncestor "c"] ∧
    (Problem.ownAncestor "c").message = "node 'c' is its own ancestor" ∧
    ¬ overhang.Reports overhang.OnCircle := by
  have hempty : ∀ id, ¬ overhang.HasParent id "c" := by
    intro id h
    obtain ⟨n, hn, rfl⟩ := List.mem_map.mp (mem_ids_of_hasParent h)
    have hnone : ∀ n ∈ overhang.nodes.toList, n.parent? ≠ some "c" := by decide
    exact hnone n hn ((hasParent_iff hn).mp h)
  have hoff : ¬ overhang.OnCircle "c" := fun h => by
    obtain ⟨id, _, hstep⟩ := Relation.TransGen.tail'_iff.mp h
    exact hempty id hstep
  have hnamed : overhang.parentProblemsOf "c" = [.ownAncestor "c"] := by decide
  refine ⟨hempty, hoff, hnamed, by decide, fun h => ?_⟩
  have hab : overhang.HasParent "a" "b" := rfl
  have hba : overhang.HasParent "b" "a" := rfl
  have hca : overhang.HasParent "c" "a" := rfl
  exact reports_onCircle_iff.mp h "c" ⟨hoff, "a", .single hca, .tail (.single hab) hba⟩

end Graph
end PortNet
