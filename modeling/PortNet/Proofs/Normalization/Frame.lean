import PortNet.Proofs.Normalization.Stage

namespace PortNet

theorem Batch.Attached.append {a b : Batch} (ha : a.Attached) (hb : b.Attached)
    (keep : Edge → Bool) : Batch.Attached ⟨a.nodes ++ b.nodes, a.edges.filter keep ++ b.edges⟩ := by
  intro e he
  rcases List.mem_append.mp he with he | he
  · obtain ⟨n, hn, hend⟩ := ha e (List.mem_filter.mp he).1
    exact ⟨n, List.mem_append_left _ hn, hend⟩
  · obtain ⟨n, hn, hend⟩ := hb e he
    exact ⟨n, List.mem_append_right _ hn, hend⟩

namespace Graph
variable {g g' : Graph} {o : Options}

/-- Normalization adds nodes at the end and removes none. The edges that stay are exactly those that
no pass was to replace, unchanged and in their order; every other edge touches a new node. -/
theorem normalize_frame (h : g.normalize o = .ok g') : ∃ (added : List Node) (new : List Edge),
    g'.nodes.toList = g.nodes.toList ++ added ∧ g'.extras = g.extras ∧
      g'.edges = g.edges.filter (fun e =>
        !(o.bridgeLoops && e.isSelfLoop) && !(o.expandFans && g.bundled e)) ++ new ∧
      ∀ e ∈ new, ∃ n ∈ added, e.source.node = n.id ∨ e.target.node = n.id := by
  obtain ⟨hg, g₁, g₂, hfans, hloops, hsinks⟩ := stages_of_normalize h
  have hg₁ := hfans.wellFormed hg
  obtain ⟨fans, hr₁, ha₁⟩ := hfans.revision hg
  obtain ⟨bridges, hr₂, ha₂⟩ := hloops.revision hg₁
  obtain ⟨sinks, hr₃, ha₃⟩ := hsinks.revision (hloops.wellFormed hg₁)
  have hall := (hr₁.trans hr₂).trans hr₃
  refine ⟨_, _, hall.nodes, hall.extras, ?_, (ha₁.append ha₂ _).append ha₃ _⟩
  rw [hall.edges]
  congr 1
  apply List.filter_congr
  intro e _
  simp only [Pass.drops, Bool.and_false, Bool.not_false, Bool.and_true]
  exact Bool.and_comm _ _

/-- Of five edges the one outside of all fans and loops stays, in front of the new ones. -/
theorem normalize_frame_sample : ∃ g', sample.normalize {} = .ok g' ∧
    ∃ (added : List Node) (new : List Edge),
      g'.nodes.toList = sample.nodes.toList ++ added ∧ g'.extras = sample.extras ∧
        g'.edges = Edge.between ⟨"c", "o"⟩ ⟨"b", "i"⟩ :: new ∧
        ∀ e ∈ new, ∃ n ∈ added, e.source.node = n.id ∨ e.target.node = n.id := by
  obtain ⟨g', h⟩ := exists_normalize_sample
  obtain ⟨added, new, hnodes, hextras, hedges, hnew⟩ := normalize_frame h
  have hkept : sample.edges.filter (fun e => !(true && e.isSelfLoop) &&
      !(true && sample.bundled e)) = [Edge.between ⟨"c", "o"⟩ ⟨"b", "i"⟩] := by decide
  rw [hkept] at hedges
  exact ⟨g', h, added, new, hnodes, hextras, hedges, hnew⟩

end Graph
end PortNet
