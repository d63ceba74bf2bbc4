import PortNet.Proofs.Normalization.Postconditions

namespace PortNet
variable {g g' : Graph} {o : Options}

/-- Passes that change nothing leave their graph and report nothing. -/
theorem runPasses_of_unchanged (completed : List (Pass × Change)) {passes : List Pass}
    (h : ∀ pass ∈ passes, pass.run g = ⟨g, .ok {}⟩) :
    runPasses g completed passes =
      ⟨completed ++ passes.map (fun pass => (pass, ({} : Change))), .ok g⟩ := by
  induction passes generalizing completed with
  | nil => simp [runPasses]
  | cons pass passes ih =>
    rw [runPasses, h pass List.mem_cons_self]
    simp only
    rw [ih _ fun p hp => h p (List.mem_cons_of_mem pass hp), List.append_assoc]
    rfl

namespace Graph

/-- A pass that was on has nothing to do on the graph at the end of all passes. -/
theorem run_of_normalize
    (hloops : ∀ e ∈ g.edges, e.isContinuation = true → e.isSelfLoop = false)
    (h : g.normalize o = .ok g') {pass : Pass} (hon : o.enables pass = true) :
    pass.run g' = ⟨g', .ok {}⟩ := by
  cases pass with
  | expandFans =>
    refine expandFans_of_none fun d => (bundles_normalize h hon d).mpr ?_
    exact fun hc => not_clashes hloops d hc.2
  | bridgeLoops => exact bridgeLoops_of_none (selfLoops_normalize h hon)
  | addSinks => exact addSinks_of_none (unconsumedPorts_normalize h hon)

/-- Normalizing a normalized graph reproduces it, and every pass reports that it did nothing. The
continuation edges of the original graph must not be self-loops. -/
theorem normalize_idempotent
    (hloops : ∀ e ∈ g.edges, e.isContinuation = true → e.isSelfLoop = false)
    (h : g.normalize o = .ok g') :
    g'.report o .structural = ⟨o.passes.map (fun pass => (pass, ({} : Change))), .ok g'⟩ := by
  rw [report, if_pos (accepts_iff.mpr (wellFormed_normalize h))]
  refine runPasses_of_unchanged [] fun pass hp => ?_
  exact run_of_normalize hloops h (List.mem_filter.mp hp).2

theorem normalize_idempotent_sample : ∃ g', sample.normalize {} = .ok g' ∧
    g'.report {} .structural =
      ⟨[(.expandFans, {}), (.bridgeLoops, {}), (.addSinks, {})], .ok g'⟩ := by
  obtain ⟨g', h⟩ := exists_normalize_sample
  exact ⟨g', h, normalize_idempotent (by decide) h⟩

end Graph
end PortNet
