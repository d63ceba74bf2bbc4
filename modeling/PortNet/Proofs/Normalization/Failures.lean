import PortNet.Proofs.Normalization.Stepwise

namespace PortNet

variable {g g₁ : Graph} {o : Options} {pass : Pass} {problem : Problem}

/-- A pass on a well-formed graph is stopped by an id that is taken, or as the one for self-loops by
a port on the wrong side. -/
theorem Pass.problem_of_run (hg : g.WellFormed) (h : (pass.run g).result = .error problem) :
    (∃ id, problem = .idInUse id ∧ ¬ (g.ids ++ (pass.plan g).ids).Nodup) ∨
      (pass = .bridgeLoops ∧ ∃ port side, problem = .undeclaredLoop port side) := by
  cases pass with
  | expandFans => exact .inl (Graph.expandFans_error hg h)
  | bridgeLoops =>
    rcases Graph.bridgeLoops_error h with ⟨r, _, hbridge⟩ | htaken
    · exact .inr ⟨rfl, Graph.bridge_error hbridge⟩
    · exact .inl htaken
  | addSinks => exact .inl (Graph.addSinks_error h)

theorem Pass.code_of_run (hg : g.WellFormed) (h : (pass.run g).result = .error problem) :
    problem.code = .idInUse ∨ (problem.code = .untyped ∧ pass = .bridgeLoops) := by
  rcases problem_of_run hg h with ⟨id, rfl, _⟩ | ⟨hpass, port, side, rfl⟩
  · exact .inl rfl
  · exact .inr ⟨rfl, hpass⟩

namespace Graph

/-- A run fails in a pass with some code exactly if that pass fails with it on the graph that enters
it. -/
theorem exists_failure_iff (hg : g.WellFormed) (hon : o.enables pass = true)
    (hentry : g.normalize (o.before pass) = .ok g₁) {code : Code} :
    (∃ f, g.normalize o = .error f ∧ f.pass = some pass ∧ f.hasCode code = true) ↔
      ∃ problem, (pass.run g₁).result = .error problem ∧ problem.code = code := by
  have hcode : ∀ problem : Problem,
      (Failure.inPass pass problem).hasCode code = true ↔ problem.code = code := by
    intro problem
    simp [Failure.hasCode, Failure.inPass, Problem.diagnostic]
  constructor
  · intro hall
    obtain ⟨f, h, hpass, hf⟩ := hall
    obtain ⟨stop, g', problem, _, hentry', hrun, rfl⟩ := (normalize_eq_error_iff hg).mp h
    obtain rfl : stop = pass := Option.some.inj hpass
    obtain rfl : g' = g₁ := Except.ok.inj (hentry'.symm.trans hentry)
    exact ⟨problem, hrun, (hcode problem).mp hf⟩
  · intro hall
    obtain ⟨problem, hrun, hc⟩ := hall
    have h := (normalize_eq_error_iff hg).mpr ⟨pass, g₁, problem, hon, hentry, hrun, rfl⟩
    exact ⟨_, h, rfl, (hcode problem).mpr hc⟩

/-- A loop either fails to pass through its node, or it names ports that are found on the sides on
which the bridge looks for them. -/
theorem not_passesThrough_iff (hg : g.WellFormed) {e : Edge} (he : e ∈ g.edges) :
    ¬ g.PassesThrough e.route ↔ ∃ n ∈ g.nodes.toList, n.id = e.source.node ∧
      (e.target.name ∉ n.outputs.keys ∨ e.source.name ∉ n.inputs.keys) := by
  obtain ⟨n, hn⟩ := contains_iff_node?.mp (hg.ends e he).1.contains
  obtain ⟨hmem, hid⟩ := node?_eq_some_iff.mp hn
  have hthrough : g.PassesThrough e.route ↔
      e.source.name ∈ n.inputs.keys ∧ e.target.name ∈ n.outputs.keys := by
    simp [PassesThrough, Edge.route, hn]
  rw [hthrough]
  constructor
  · intro hno
    rw [not_and_or] at hno
    exact ⟨n, hmem, hid, hno.symm⟩
  · intro hall hboth
    obtain ⟨m, hm, hmid, hside⟩ := hall
    have hsame : m = n := by
      have hfound := node?_of_mem hm
      rwa [hmid, hn, Option.some.injEq, eq_comm] at hfound
    subst hsame
    rcases hside with ht | hs
    · exact ht hboth.2
    · exact hs hboth.1

/-- Bridging finds a port without a type exactly if some self-loop does not pass through its
node. -/
theorem bridgeLoops_untyped_iff (hg : g.WellFormed) :
    (∃ problem, g.bridgeLoops.result = .error problem ∧ problem.code = .untyped) ↔
      ∃ r ∈ g.loops, ¬ g.PassesThrough r := by
  constructor
  · intro hall
    obtain ⟨problem, h, hcode⟩ := hall
    rcases bridgeLoops_error h with ⟨r, hr, hbridge⟩ | ⟨id, rfl, _⟩
    · refine ⟨r, hr, fun hthrough => ?_⟩
      obtain ⟨b, hb⟩ := (exists_bridge_iff (hg.declares_loop hr).2.2).mpr hthrough
      rw [hb] at hbridge
      cases hbridge
    · cases hcode
  · intro hall
    obtain ⟨r, hr, hno⟩ := hall
    rw [← exists_bridge_iff (hg.declares_loop hr).2.2] at hno
    obtain ⟨port, side, h⟩ := bridgeLoops_undeclared hr hno
    exact ⟨_, h, rfl⟩

/-- A pass succeeds on a well-formed graph exactly if it meets no self-loop that it cannot bridge and
no id that is taken. -/
theorem exists_ok_run_iff (hg : g.WellFormed) (pass : Pass) :
    (∃ c, (pass.run g).result = .ok c) ↔
      (pass = .bridgeLoops → ∀ r ∈ g.loops, g.PassesThrough r) ∧
        (g.ids ++ (pass.plan g).ids).Nodup := by
  constructor
  · intro hall
    obtain ⟨c, h⟩ := hall
    refine ⟨fun hpass r hr => ?_, (Pass.revision_run hg h).nodup_ids⟩
    subst hpass
    rw [← exists_bridge_iff (hg.declares_loop hr).2.2]
    by_contra hno
    obtain ⟨port, side, herror⟩ := bridgeLoops_undeclared hr hno
    cases h.symm.trans herror
  · intro hall
    obtain ⟨hloops, hnodup⟩ := hall
    cases h : (pass.run g).result with
    | ok c => exact ⟨c, rfl⟩
    | error problem =>
      rcases Pass.problem_of_run hg h with ⟨_, _, htaken⟩ | ⟨rfl, port, side, rfl⟩
      · exact absurd hnodup htaken
      · obtain ⟨r, hr, hno⟩ := (bridgeLoops_untyped_iff hg).mp ⟨_, h, rfl⟩
        exact absurd (hloops rfl r hr) hno

/-- What can go wrong with an accepted graph: an id is taken, or a self-loop that is to be bridged
leads from a port that is no input or to one that is no output. The latter is found before any
id is looked at. -/
theorem failure_normalize (hv : Validator.structural.accepts g = true) :
    (∀ f, g.normalize o = .error f → ∃ d, f.diagnostics = [d] ∧
      (d.code = some .idInUse ∨ (d.code = some .untyped ∧ f.pass = some .bridgeLoops))) ∧
    (o.bridgeLoops = true → ∀ g₁, g.normalize (o.before .bridgeLoops) = .ok g₁ →
      ((∃ f, g.normalize o = .error f ∧ f.pass = some .bridgeLoops ∧ f.hasCode .untyped = true) ↔
        ∃ e ∈ g₁.edges, e.isSelfLoop = true ∧ ∃ n ∈ g₁.nodes.toList, n.id = e.source.node ∧
          (e.target.name ∉ n.outputs.keys ∨ e.source.name ∉ n.inputs.keys))) := by
  have hg := accepts_iff.mp hv
  constructor
  · intro f h
    obtain ⟨pass, g', problem, _, hentry, hrun, rfl⟩ := (normalize_eq_error_iff hg).mp h
    refine ⟨problem.diagnostic, rfl, ?_⟩
    rcases Pass.code_of_run (wellFormed_normalize hentry) hrun with hc | ⟨hc, rfl⟩
    · exact .inl (congrArg some hc)
    · exact .inr ⟨congrArg some hc, rfl⟩
  · intro hon g₁ hentry
    have hg₁ := wellFormed_normalize hentry
    have hpass : o.enables .bridgeLoops = true := hon
    rw [exists_failure_iff hg hpass hentry]
    refine (bridgeLoops_untyped_iff hg₁).trans ?_
    constructor
    · intro hall
      obtain ⟨r, hr, hno⟩ := hall
      obtain ⟨e, he, rfl⟩ := mem_loops.mp hr
      obtain ⟨he, hloop⟩ := mem_selfLoops.mp he
      exact ⟨e, he, hloop, (not_passesThrough_iff hg₁ he).mp hno⟩
    · intro hall
      obtain ⟨e, he, hloop, hside⟩ := hall
      have hr : e.route ∈ g₁.loops := mem_loops.mpr ⟨e, mem_selfLoops.mpr ⟨he, hloop⟩, rfl⟩
      exact ⟨e.route, hr, (not_passesThrough_iff hg₁ he).mpr hside⟩

/-- A loop from the input `a` of `x` to itself, beside one whose bridge has an id that is taken. -/
def misrouted : Graph where
  nodes := .ofList [
    .build "x" { inputs := some (.ofList [("a", .named "t")])
                 outputs := some (.ofList [("b", .named "t")]) } .unstated,
    stub "id_x@a_to_x@b" true]
  edges := [.between ⟨"x", "a"⟩ ⟨"x", "b"⟩,
    (Edge.between ⟨"x", "a"⟩ ⟨"x", "a"⟩).asContinuation]

/-- The loop on the wrong side is what stops the run, and not the id. -/
theorem failure_normalize_misrouted : Validator.structural.accepts misrouted = true ∧
    misrouted.normalize (Options.before {} .bridgeLoops) = .ok misrouted ∧
      ∃ f d, misrouted.normalize {} = .error f ∧ f.pass = some .bridgeLoops ∧
        f.hasCode .untyped = true ∧ f.diagnostics = [d] := by
  have hv : Validator.structural.accepts misrouted = true := by decide
  have hentry : misrouted.normalize (Options.before {} .bridgeLoops) = .ok misrouted :=
    eq_ok_of_toOption (by decide +kernel)
  obtain ⟨hcodes, hloops⟩ := failure_normalize (o := {}) hv
  obtain ⟨f, h, hpass, hcode⟩ := (hloops rfl misrouted hentry).mpr
    ⟨_, List.mem_cons_of_mem _ List.mem_cons_self, rfl, _, List.mem_cons_self, rfl,
      .inl (by decide)⟩
  obtain ⟨d, hd, _⟩ := hcodes f h
  exact ⟨hv, hentry, f, d, h, hpass, hcode, hd⟩

end Graph
end PortNet
