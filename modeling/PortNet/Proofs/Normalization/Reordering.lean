import PortNet.Proofs.Fan.Reordering
import PortNet.Proofs.Normalization.Failures

namespace PortNet

namespace Graph.Reordered
variable {g g' : Graph} {n n' : Node} {p : Port} {r : Route} {u : Unconsumed}

theorem perm_loops (h : g.Reordered g') : g.loops.Perm g'.loops := by
  refine (List.perm_ext_iff_of_nodup (nodup_distinct _) (nodup_distinct _)).mpr fun r => ?_
  rw [mem_distinct, mem_distinct]
  exact ((h.edges.filter Edge.isSelfLoop).map Edge.route).mem_iff

theorem looping_eq (h : g.Reordered g') (p : Port) (side : Side) :
    g'.looping p side = g.looping p side := by
  rw [looping, loopType, h.bind_node?_eq p.node fun n n' hn => (hn.value.get?_eq side p.name).symm]
  rfl

theorem bridgeAt_eq (h : g.Reordered g') (r : Route) : g'.bridgeAt r = g.bridgeAt r := by
  simp only [bridgeAt, h.looping_eq]

theorem passesThrough (h : g.Reordered g') (hr : g.PassesThrough r) : g'.PassesThrough r := by
  obtain ⟨n, hn, hs, ht⟩ := hr
  obtain ⟨n', hn', hrel⟩ := h.exists_node? hn
  exact ⟨n', hn', ((hrel.value.perm_ports .input).map Prod.fst).mem_iff.mp hs,
    ((hrel.value.perm_ports .output).map Prod.fst).mem_iff.mp ht⟩

theorem outDegree_eq (h : g.Reordered g') (p : Port) : g'.outDegree p = g.outDegree p :=
  ((h.edges.filter _).length_eq).symm

theorem insideLambda_eq (h : g.Reordered g') (hn : n.Reordered n') :
    g'.insideLambda n' = g.insideLambda n := by
  rw [insideLambda, insideLambda, hn.parent?_eq]
  cases n.parent? with
  | none => rfl
  | some q =>
    have hrel := h.nodes q
    rw [Option.bind_some, Option.bind_some]
    generalize g.node? q = found at hrel
    generalize g'.node? q = found' at hrel
    cases hrel with
    | none => rfl
    | some hrel => rw [Option.any_some, Option.any_some, hrel.kind_eq]

theorem perm_unusedPorts (h : g.Reordered g') (hn : n.Reordered n') (side : Side)
    (scope : Option NodeId) :
    (g.unusedPorts n side scope).Perm (g'.unusedPorts n' side scope) := by
  simp only [unusedPorts, h.outDegree_eq, hn.id_eq]
  exact ((hn.value.perm_ports side).filter _).map _

theorem perm_unconsumedAt (h : g.Reordered g') (hn : n.Reordered n') :
    (g.unconsumedAt n).Perm (g'.unconsumedAt n') := by
  have houtputs : (g.undrainedOutputs n).Perm (g'.undrainedOutputs n') := by
    rw [undrainedOutputs, undrainedOutputs, h.insideLambda_eq hn]
    split
    · exact List.Perm.refl _
    · exact h.perm_unusedPorts hn .output none
  have hinputs : (g.undrainedInputs n).Perm (g'.undrainedInputs n') := by
    rw [undrainedInputs, undrainedInputs, hn.kind_eq, hn.id_eq]
    split
    · exact h.perm_unusedPorts hn .input _
    · exact List.Perm.refl _
  rw [unconsumedAt_eq, unconsumedAt_eq]
  refine houtputs.append ?_
  simp only [houtputs.any_eq]
  exact hinputs.filter _

theorem mem_unconsumedPorts_of_mem (h : g.Reordered g') (hu : u ∈ g.unconsumedPorts) :
    u ∈ g'.unconsumedPorts := by
  obtain ⟨n, hn, hu⟩ := List.mem_flatMap.mp hu
  obtain ⟨n', hn', hrel⟩ := h.exists_mem hn
  exact List.mem_flatMap.mpr ⟨n', hn', (h.perm_unconsumedAt hrel).mem_iff.mp hu⟩

theorem perm_unconsumedPorts (h : g.Reordered g') :
    g.unconsumedPorts.Perm g'.unconsumedPorts :=
  (List.perm_ext_iff_of_nodup (nodup_unconsumedPorts g).of_map (nodup_unconsumedPorts g').of_map).mpr
    fun _ => ⟨h.mem_unconsumedPorts_of_mem, h.symm.mem_unconsumedPorts_of_mem⟩

/-- What a pass adds is the same up to the order, if fans are found over edges in one order. -/
theorem perm_plan (h : g.Reordered g') {pass : Pass}
    (hedges : pass = .expandFans → g'.edges = g.edges) :
    (pass.plan g).nodes.Perm (pass.plan g').nodes ∧
      (pass.plan g).edges.Perm (pass.plan g').edges := by
  cases pass with
  | expandFans => exact ⟨h.perm_nodes_fanPlan (hedges rfl), h.perm_edges_fanPlan (hedges rfl)⟩
  | bridgeLoops =>
    simp only [Pass.plan, bridgePlan, h.bridgeAt_eq]
    exact ⟨h.perm_loops.map _, h.perm_loops.flatMap_right _⟩
  | addSinks => exact ⟨h.perm_unconsumedPorts.map _, h.perm_unconsumedPorts.map _⟩

theorem drops_eq (h : g.Reordered g') (pass : Pass) (e : Edge) :
    pass.drops g' e = pass.drops g e := by
  cases pass with
  | expandFans => exact h.bundled_eq e
  | bridgeLoops => rfl
  | addSinks => rfl

theorem exists_ok_run (h : g.Reordered g') (hg : g.WellFormed) {pass : Pass}
    (hedges : pass = .expandFans → g'.edges = g.edges) (hrun : ∃ c, (pass.run g).result = .ok c) :
    ∃ c, (pass.run g').result = .ok c := by
  rw [exists_ok_run_iff hg] at hrun
  obtain ⟨hloops, hnodup⟩ := hrun
  refine (exists_ok_run_iff (h.wellFormed hg) pass).mpr ⟨fun hpass r hr => ?_, ?_⟩
  · exact h.passesThrough (hloops hpass r (h.perm_loops.mem_iff.mpr hr))
  · exact (h.perm_ids.append ((h.perm_plan hedges).1.map Node.id)).nodup_iff.mp hnodup

end Graph.Reordered

/-- Two runs that end alike: in the same graph up to the order, or in the same pass. -/
inductive Agree : Except Failure Graph → Except Failure Graph → Prop
  | graphs {g g' : Graph} : g.Reordered g' → Agree (.ok g) (.ok g')
  | failures {f f' : Failure} : f.pass = f'.pass → Agree (.error f) (.error f')

namespace Graph.Reordered
variable {g g' : Graph} {passes : List Pass}

/-- A pass treats a graph and its reordering alike. -/
theorem attempt (h : g.Reordered g') (hg : g.WellFormed) (pass : Pass)
    (hedges : pass = .expandFans → g'.edges = g.edges) :
    Agree (pass.attempt g) (pass.attempt g') := by
  cases hrun : (pass.run g).result with
  | ok c =>
    obtain ⟨c', hrun'⟩ := h.exists_ok_run hg hedges ⟨c, hrun⟩
    rw [Pass.attempt_eq_ok.mpr ⟨c, hrun, rfl⟩, Pass.attempt_eq_ok.mpr ⟨c', hrun', rfl⟩]
    have hrevision' := Pass.revision_run (h.wellFormed hg) hrun'
    simp only [h.drops_eq] at hrevision'
    obtain ⟨hnodes, hedges⟩ := h.perm_plan hedges
    exact .graphs ((Pass.revision_run hg hrun).reordered hrevision' h hnodes hedges)
  | error problem =>
    cases hrun' : (pass.run g').result with
    | ok c' =>
      obtain ⟨c, hok⟩ := h.symm.exists_ok_run (h.wellFormed hg) (fun hpass => (hedges hpass).symm)
        ⟨c', hrun'⟩
      cases hrun.symm.trans hok
    | error problem' =>
      rw [Pass.attempt_eq_error.mpr ⟨problem, hrun, rfl⟩,
        Pass.attempt_eq_error.mpr ⟨problem', hrun', rfl⟩]
      exact .failures rfl

/-- So does a run in which fans are not expanded again after the first pass. -/
theorem foldlM_attempt (h : g.Reordered g') (hg : g.WellFormed)
    (hfirst : .expandFans ∈ passes → g'.edges = g.edges) (hrest : .expandFans ∉ passes.tail) :
    Agree (passes.foldlM (fun current pass => pass.attempt current) g)
      (passes.foldlM (fun current pass => pass.attempt current) g') := by
  induction passes generalizing g g' with
  | nil => exact .graphs h
  | cons pass passes ih =>
    rw [List.foldlM_cons, List.foldlM_cons]
    have hstep := h.attempt hg pass fun hpass => hfirst (by simp [hpass])
    generalize hrun : pass.attempt g = result at hstep
    generalize pass.attempt g' = result' at hstep
    cases hstep with
    | failures hpass => exact .failures hpass
    | graphs hstep =>
      exact ih hstep (Pass.wellFormed_of_attempt hg hrun) (fun hm => absurd hm hrest)
        fun hm => hrest (List.mem_of_mem_tail hm)

end Graph.Reordered

namespace Graph
variable {g g' : Graph}

/-- The order in which nodes and their ports are declared does not show in how a normalization ends,
but for the order of what it makes. -/
theorem agree_normalize (h : g.Reordered g') (hedges : g'.edges = g.edges) (o : Options) :
    Agree (g.normalize o) (g'.normalize o) := by
  cases hv : Validator.structural.accepts g with
  | true =>
    have hg := accepts_iff.mp hv
    rw [normalize_eq_foldlM hg, normalize_eq_foldlM (h.wellFormed hg)]
    refine h.foldlM_attempt hg (fun _ => hedges) ?_
    obtain ⟨fans, loops, sinks⟩ := o
    cases fans <;> cases loops <;> cases sinks <;> decide
  | false =>
    have hv' : Validator.structural.accepts g' = false := h.accepts_eq.trans hv
    rw [normalize, report, normalize, report, hv, hv']
    exact .failures rfl

def emitter : Node := .build "a" { outputs := some (.ofList [("o", .named "t")]) } .unstated

def receiver (inputs : List (PortName × PortType)) : Node :=
  .build "b" { inputs := some (.ofList inputs) } .unstated

/-- A port that feeds both inputs of another node. -/
def splitting : Graph where
  nodes := .ofList [emitter, receiver [("i", .named "t"), ("j", .named "u")]]
  edges := [.between ⟨"a", "o"⟩ ⟨"b", "i"⟩, .between ⟨"a", "o"⟩ ⟨"b", "j"⟩]

/-- The same graph, declared from back to front. -/
def splittingBackwards : Graph where
  nodes := .ofList [receiver [("j", .named "u"), ("i", .named "t")], emitter]
  edges := splitting.edges

theorem reordered_splitting : splitting.Reordered splittingBackwards := by
  have hinputs : (receiver [("i", .named "t"), ("j", .named "u")]).Reordered
      (receiver [("j", .named "u"), ("i", .named "t")]) :=
    ⟨⟨.some (List.Perm.swap _ _ _), .none, rfl⟩, rfl⟩
  refine Reordered.of_mem ?_ ?_ (.refl _) rfl
  · intro n hn
    rcases List.mem_pair.mp hn with rfl | rfl
    · exact ⟨_, List.mem_cons_of_mem _ List.mem_cons_self, .refl _⟩
    · exact ⟨_, List.mem_cons_self, hinputs⟩
  · intro n hn
    rcases List.mem_pair.mp hn with rfl | rfl
    · exact ⟨_, List.mem_cons_of_mem _ List.mem_cons_self, hinputs⟩
    · exact ⟨_, List.mem_cons_self, .refl _⟩

theorem agree_normalize_splitting : splitting.Reordered splittingBackwards ∧
    splittingBackwards.edges = splitting.edges ∧
      Agree (splitting.normalize {}) (splittingBackwards.normalize {}) :=
  ⟨reordered_splitting, rfl, agree_normalize reordered_splitting rfl {}⟩

end Graph
end PortNet
