import PortNet.Proofs.Normalization.Stage

namespace PortNet

/-- A pass by itself: the graph that it leaves, or the failure that it ends in. -/
def Pass.attempt (pass : Pass) (g : Graph) : Except Failure Graph :=
  match pass.run g with
  | ⟨changed, .ok _⟩ => .ok changed
  | ⟨_, .error problem⟩ => .error (.inPass pass problem)

namespace Options

/-- The options that leave a single pass on. -/
def only (pass : Pass) : Options :=
  ⟨pass = .expandFans, pass = .bridgeLoops, pass = .addSinks⟩

/-- The same options with a pass and all those after it switched off. -/
def before (o : Options) : Pass → Options
  | .expandFans => ⟨false, false, false⟩
  | .bridgeLoops => ⟨o.expandFans, false, false⟩
  | .addSinks => ⟨o.expandFans, o.bridgeLoops, false⟩

variable {o : Options} {pass : Pass} {earlier later : List Pass}

theorem passes_only (pass : Pass) : (only pass).passes = [pass] := by
  cases pass with
  | expandFans => rfl
  | bridgeLoops => rfl
  | addSinks => rfl

theorem mem_passes : pass ∈ o.passes ↔ o.enables pass = true := by
  rw [passes, List.mem_filter]
  exact and_iff_right (by cases pass <;> decide)

theorem nodup_passes (o : Options) : o.passes.Nodup :=
  List.Nodup.filter _ (by decide)

theorem passes_before (h : o.enables pass = true) :
    (o.before pass).passes = o.passes.takeWhile (fun p => p ≠ pass) := by
  obtain ⟨fans, loops, sinks⟩ := o
  cases pass with
  | expandFans =>
    obtain rfl : fans = true := h
    cases loops <;> cases sinks <;> rfl
  | bridgeLoops =>
    obtain rfl : loops = true := h
    cases fans <;> cases sinks <;> rfl
  | addSinks =>
    obtain rfl : sinks = true := h
    cases fans <;> cases loops <;> rfl

theorem eq_passes_before (h : o.passes = earlier ++ pass :: later) :
    earlier = (o.before pass).passes := by
  have hon : pass ∈ o.passes := by simp [h]
  have hnodup := o.nodup_passes
  rw [h] at hnodup
  have hearlier : ∀ p ∈ earlier, decide (p ≠ pass) = true := fun p hp =>
    decide_eq_true ((List.nodup_append.mp hnodup).2.2 p hp pass List.mem_cons_self)
  rw [passes_before (mem_passes.mp hon), h, List.takeWhile_append_of_pos hearlier,
    List.takeWhile_cons_of_neg (by simp), List.append_nil]

end Options

variable {g g' : Graph} {o : Options} {pass : Pass} {f : Failure}

theorem Pass.attempt_eq_ok :
    pass.attempt g = .ok g' ↔ ∃ c, (pass.run g).result = .ok c ∧ (pass.run g).graph = g' := by
  rw [attempt]
  split
  · rename_i changed c hrun
    simp [hrun]
  · rename_i left problem hrun
    simp [hrun]

theorem Pass.attempt_eq_error : pass.attempt g = .error f ↔
    ∃ problem, (pass.run g).result = .error problem ∧ f = .inPass pass problem := by
  rw [attempt]
  split
  · rename_i changed c hrun
    simp [hrun]
  · rename_i left problem hrun
    simp [hrun, eq_comm]

theorem Pass.wellFormed_of_attempt (hg : g.WellFormed) (h : pass.attempt g = .ok g') :
    g'.WellFormed := by
  obtain ⟨c, hrun, rfl⟩ := attempt_eq_ok.mp h
  exact wellFormed_run hg hrun

/-- How a run ends does not depend on what has been completed before. -/
theorem result_runPasses (completed : List (Pass × Change)) (passes : List Pass) :
    (runPasses g completed passes).result =
      passes.foldlM (fun current pass => pass.attempt current) g := by
  induction passes generalizing g completed with
  | nil => rfl
  | cons pass passes ih =>
    rw [List.foldlM_cons, runPasses, Pass.attempt]
    split
    · rename_i left problem hrun
      rw [hrun]
      rfl
    · rename_i changed change hrun
      rw [hrun]
      exact ih _

/-- A run that fails has gone through some passes and is stopped by the next one. -/
theorem exists_error_of_foldlM {passes : List Pass}
    (h : passes.foldlM (fun current pass => pass.attempt current) g = .error f) :
    ∃ earlier pass later g', passes = earlier ++ pass :: later ∧
      earlier.foldlM (fun current pass => pass.attempt current) g = .ok g' ∧
        pass.attempt g' = .error f := by
  induction passes generalizing g with
  | nil => cases h
  | cons pass passes ih =>
    rw [List.foldlM_cons, bind_eq_error] at h
    rcases h with hstop | ⟨g₁, hpass, hrest⟩
    · exact ⟨[], pass, passes, g, rfl, rfl, hstop⟩
    · obtain ⟨earlier, stop, later, g', rfl, hearlier, hstop⟩ := ih hrest
      refine ⟨pass :: earlier, stop, later, g', rfl, ?_, hstop⟩
      rw [List.foldlM_cons, hpass]
      exact hearlier

namespace Graph

theorem normalize_eq_foldlM (hg : g.WellFormed) (o : Options) :
    g.normalize o = o.passes.foldlM (fun current pass => pass.attempt current) g := by
  rw [normalize, report, if_pos (accepts_iff.mpr hg), result_runPasses]

theorem normalize_only (hg : g.WellFormed) (pass : Pass) :
    g.normalize (.only pass) = pass.attempt g := by
  rw [normalize_eq_foldlM hg, Options.passes_only, List.foldlM_cons]
  exact bind_pure _

/-- Asking for a well-formed graph before every pass changes nothing. -/
theorem foldlM_normalize_only (hg : g.WellFormed) (passes : List Pass) :
    passes.foldlM (fun current pass => current.normalize (.only pass)) g =
      passes.foldlM (fun current pass => pass.attempt current) g := by
  induction passes generalizing g with
  | nil => rfl
  | cons pass passes ih =>
    rw [List.foldlM_cons, List.foldlM_cons, normalize_only hg]
    cases h : pass.attempt g with
    | error failure => rfl
    | ok g' => exact ih (Pass.wellFormed_of_attempt hg h)

/-- A normalization fails exactly if a pass that is on fails on the graph that the passes before it
have made. -/
theorem normalize_eq_error_iff (hg : g.WellFormed) : g.normalize o = .error f ↔
    ∃ pass g' problem, o.enables pass = true ∧ g.normalize (o.before pass) = .ok g' ∧
      (pass.run g').result = .error problem ∧ f = .inPass pass problem := by
  simp only [normalize_eq_foldlM hg]
  constructor
  · intro h
    obtain ⟨earlier, pass, later, g', hpasses, hearlier, hstop⟩ := exists_error_of_foldlM h
    obtain ⟨problem, hrun, hf⟩ := Pass.attempt_eq_error.mp hstop
    have hon : pass ∈ o.passes := by simp [hpasses]
    rw [Options.eq_passes_before hpasses] at hearlier
    exact ⟨pass, g', problem, Options.mem_passes.mp hon, hearlier, hrun, hf⟩
  · intro hall
    obtain ⟨pass, g', problem, hon, hearlier, hrun, rfl⟩ := hall
    obtain ⟨earlier, later, hpasses⟩ := List.append_of_mem (Options.mem_passes.mpr hon)
    rw [← Options.eq_passes_before hpasses] at hearlier
    have hstop := Pass.attempt_eq_error.mpr ⟨problem, hrun, rfl⟩
    rw [hpasses, List.foldlM_append, bind_eq_error]
    exact .inr ⟨g', hearlier, bind_eq_error.mpr (.inl hstop)⟩

/-- Every pass makes a graph that is accepted again, so that one normalization comes to the same, in
success and in failure, as one for each pass that is on, with its own validation. -/
theorem normalize_stepwise (hv : Validator.structural.accepts g = true) :
    (∀ pass c, (Pass.run pass g).result = .ok c →
      Validator.structural.accepts (Pass.run pass g).graph = true) ∧
      ∀ o : Options, g.normalize o =
        o.passes.foldlM (fun current pass => current.normalize (.only pass)) g := by
  have hg := accepts_iff.mp hv
  refine ⟨fun pass c h => accepts_iff.mpr (Pass.wellFormed_run hg h), fun o => ?_⟩
  rw [normalize_eq_foldlM hg, foldlM_normalize_only hg]

/-- The sample with its fans expanded is accepted, and three runs with one pass each come to the
same as one with all of them. -/
theorem normalize_stepwise_sample : Validator.structural.accepts sample = true ∧
    Validator.structural.accepts sample.expandFans.graph = true ∧ sample.normalize {} =
      [Pass.expandFans, .bridgeLoops, .addSinks].foldlM
        (fun current pass => current.normalize (.only pass)) sample := by
  have hv : Validator.structural.accepts sample = true := by decide
  have hrun : (Pass.run .expandFans sample).result = .ok ⟨2, 3, 5⟩ := by decide +kernel
  obtain ⟨haccepted, hsteps⟩ := normalize_stepwise hv
  exact ⟨hv, haccepted .expandFans _ hrun, hsteps {}⟩

end Graph
end PortNet
