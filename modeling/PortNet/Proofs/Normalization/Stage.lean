import PortNet.Normalization.Report
import PortNet.Proofs.Fan.Trails
import PortNet.Proofs.SelfLoop
import PortNet.Proofs.Sink

namespace PortNet

/-- Every edge of the batch has an end at one of its nodes. -/
def Batch.Attached (b : Batch) : Prop :=
  ∀ e ∈ b.edges, ∃ n ∈ b.nodes, e.source.node = n.id ∨ e.target.node = n.id

theorem Batch.attached_of_ids {b : Batch} (h : ∀ e ∈ b.edges,
    e.source.node ∈ b.ids ∨ e.target.node ∈ b.ids) : b.Attached := by
  intro e he
  rcases h e he with hm | hm
  · obtain ⟨n, hn, hid⟩ := List.mem_map.mp hm
    exact ⟨n, hn, .inl hid.symm⟩
  · obtain ⟨n, hn, hid⟩ := List.mem_map.mp hm
    exact ⟨n, hn, .inr hid.symm⟩

namespace Pass

/-- The edges that a pass takes out of a graph. -/
def drops (g : Graph) (e : Edge) : Pass → Bool
  | expandFans => g.bundled e
  | bridgeLoops => e.isSelfLoop
  | addSinks => false

/-- What a pass adds to a graph. -/
def plan (g : Graph) : Pass → Batch
  | expandFans => g.fanPlan
  | bridgeLoops => g.bridgePlan
  | addSinks => g.sinkPlan

/-- One stage of a normalization: a pass was completed, or it was switched off. -/
inductive Stage (pass : Pass) (g : Graph) : Bool → Graph → Prop
  | off : Stage pass g false g
  | on {c : Change} : (pass.run g).result = .ok c → Stage pass g true (pass.run g).graph

variable {pass : Pass} {g g' : Graph} {c : Change} {enabled : Bool}

theorem wellFormed_run (hg : g.WellFormed) (h : (pass.run g).result = .ok c) :
    (pass.run g).graph.WellFormed := by
  cases pass with
  | expandFans => exact Graph.wellFormed_expandFans hg h
  | bridgeLoops => exact Graph.wellFormed_bridgeLoops hg h
  | addSinks => exact Graph.wellFormed_addSinks hg h

theorem revision_run (hg : g.WellFormed) (h : (pass.run g).result = .ok c) :
    Revision g (pass.run g).graph (fun e => !pass.drops g e) (pass.plan g) := by
  cases pass with
  | expandFans => exact Graph.revision_expandFans hg h
  | bridgeLoops => exact Graph.revision_bridgeLoops h
  | addSinks => exact Graph.revision_addSinks h

theorem attached_plan (pass : Pass) (g : Graph) : (pass.plan g).Attached := by
  cases pass with
  | expandFans => exact Batch.attached_of_ids fun e => Graph.touches_of_mem_fanPlan
  | bridgeLoops => exact Batch.attached_of_ids fun e => Graph.touches_of_mem_bridgePlan
  | addSinks => exact Batch.attached_of_ids fun e he => .inr (Graph.touches_of_mem_sinkPlan he)

/-- No pass makes a self-loop. -/
theorem not_isSelfLoop_of_mem_plan (hg : g.WellFormed) (h : (pass.run g).result = .ok c)
    {e : Edge} (he : e ∈ (pass.plan g).edges) : e.isSelfLoop = false := by
  cases pass with
  | expandFans => exact Graph.not_isSelfLoop_of_mem_fanPlan hg h he
  | bridgeLoops =>
    have hnone := List.filter_eq_nil_iff.mp (Graph.selfLoops_bridgeLoops hg h)
    exact Bool.eq_false_iff.mpr (hnone e ((revision_run hg h).mem_edges_iff.mpr (.inr he)))
  | addSinks => exact Graph.not_isSelfLoop_of_mem_sinkPlan h he

theorem selfLoops_subset_run (hg : g.WellFormed) (h : (pass.run g).result = .ok c) :
    (pass.run g).graph.selfLoops ⊆ g.selfLoops := by
  intro e he
  obtain ⟨he, hloop⟩ := Graph.mem_selfLoops.mp he
  rcases (revision_run hg h).mem_edges_iff.mp he with ⟨hold, _⟩ | hnew
  · exact Graph.mem_selfLoops.mpr ⟨hold, hloop⟩
  · rw [not_isSelfLoop_of_mem_plan hg h hnew] at hloop
    cases hloop

namespace Stage

/-- Every stage keeps a graph well formed. -/
theorem wellFormed (hg : g.WellFormed) (h : pass.Stage g enabled g') : g'.WellFormed := by
  cases h with
  | off => exact hg
  | on h => exact wellFormed_run hg h

theorem revision (hg : g.WellFormed) (h : pass.Stage g enabled g') : ∃ batch : Batch,
    Revision g g' (fun e => !(enabled && pass.drops g e)) batch ∧ batch.Attached := by
  cases h with
  | off => exact ⟨{}, Revision.refl g, fun e he => by simp at he⟩
  | on h => exact ⟨pass.plan g, revision_run hg h, attached_plan pass g⟩

/-- Where there are no self-loops, none come up. -/
theorem selfLoops_eq_nil (hg : g.WellFormed) (h : pass.Stage g enabled g')
    (hnone : g.selfLoops = []) : g'.selfLoops = [] := by
  cases h with
  | off => exact hnone
  | on h => exact List.eq_nil_of_subset_nil (hnone ▸ selfLoops_subset_run hg h)

end Stage
end Pass

variable {g g' : Graph} {o : Options} {completed : List (Pass × Change)}

/-- A run over the passes that are left on is a stage for the first of them, and a run over the
rest. -/
theorem stage_of_runPasses {pass : Pass} {passes : List Pass}
    (h : (runPasses g completed ((pass :: passes).filter o.enables)).result = .ok g') :
    ∃ g₁ completed', pass.Stage g (o.enables pass) g₁ ∧
      (runPasses g₁ completed' (passes.filter o.enables)).result = .ok g' := by
  cases hon : o.enables pass with
  | false =>
    rw [List.filter_cons_of_neg (by simp [hon])] at h
    exact ⟨g, completed, .off, h⟩
  | true =>
    rw [List.filter_cons_of_pos hon, runPasses] at h
    split at h
    · cases h
    · rename_i changed change hrun
      have hstage : pass.Stage g true (pass.run g).graph := .on (c := change) (by rw [hrun])
      rw [hrun] at hstage
      exact ⟨changed, _, hstage, h⟩

/-- A normalization that succeeds has accepted the graph and gone through three stages. -/
theorem stages_of_normalize (h : g.normalize o = .ok g') :
    g.WellFormed ∧ ∃ g₁ g₂, Pass.expandFans.Stage g o.expandFans g₁ ∧
      Pass.bridgeLoops.Stage g₁ o.bridgeLoops g₂ ∧ Pass.addSinks.Stage g₂ o.addSinks g' := by
  rw [Graph.normalize, Graph.report] at h
  split at h
  · rename_i hv
    obtain ⟨g₁, _, hfans, h⟩ := stage_of_runPasses h
    obtain ⟨g₂, _, hloops, h⟩ := stage_of_runPasses h
    obtain ⟨g₃, _, hsinks, h⟩ := stage_of_runPasses h
    cases h
    exact ⟨Graph.accepts_iff.mp hv, g₁, g₂, hfans, hloops, hsinks⟩
  · cases h

theorem Graph.wellFormed_normalize (h : g.normalize o = .ok g') : g'.WellFormed := by
  obtain ⟨hg, g₁, g₂, hfans, hloops, hsinks⟩ := stages_of_normalize h
  exact hsinks.wellFormed (hloops.wellFormed (hfans.wellFormed hg))

/-- Two crossing fans, an edge of its own from `c` to `b`, and a self-loop at the compound `x`. -/
def Graph.sample : Graph where
  nodes := .ofList [stub "a" true, stub "b" true, stub "c" true, stub "d" true, stub "x" false]
  edges := [.between ⟨"a", "o"⟩ ⟨"c", "i"⟩, .between ⟨"a", "o"⟩ ⟨"d", "i"⟩,
    .between ⟨"b", "o"⟩ ⟨"c", "i"⟩, .between ⟨"c", "o"⟩ ⟨"b", "i"⟩,
    .between ⟨"x", "i"⟩ ⟨"x", "o"⟩]

theorem Graph.exists_normalize_sample : ∃ g', sample.normalize {} = .ok g' := by
  have hsome : (sample.normalize {}).toOption.isSome = true := by decide +kernel
  obtain ⟨g', hg'⟩ := Option.isSome_iff_exists.mp hsome
  exact ⟨g', eq_ok_of_toOption hg'⟩

end PortNet
