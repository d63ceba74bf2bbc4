import Mathlib.Data.List.Flatten
import Mathlib.Data.List.Perm.Subperm
import PortNet.Proofs.Fan.Naming
import PortNet.Proofs.Normalization.Drainage
import PortNet.Proofs.Normalization.Failures

namespace PortNet

theorem subperm_flatMap {α β : Type} {f k : α → List β} {xs : List α}
    (h : ∀ x ∈ xs, (f x).Subperm (k x)) : (xs.flatMap f).Subperm (xs.flatMap k) := by
  induction xs with
  | nil => exact List.Subperm.refl _
  | cons x xs ih =>
    rw [List.flatMap_cons, List.flatMap_cons]
    exact (h x List.mem_cons_self).append (ih fun y hy => h y (List.mem_cons_of_mem x hy))

/-- What an id is for: a node of the graph itself, a two-way node, a bridge or a sink. -/
inductive Origin where
  | given
  | twoWay (d : Direction)
  | bridge
  | sink

/-- The third part of the ids of one origin. -/
def Origin.mark : Origin → Option (List Char)
  | given => none
  | twoWay d => some (Synthesis.word d).toList
  | bridge => some "to".toList
  | sink => some "dummy".toList

def Origin.all : List Origin := [given, twoWay .inward, twoWay .outward, bridge, sink]

theorem Origin.nodup_marks : (all.map mark).Nodup := by decide

namespace Graph

/-- The ids that some passes would give out on a graph as it stands. -/
def planned (g : Graph) (passes : List Pass) : List NodeId :=
  passes.flatMap (fun pass => (pass.plan g).ids)

/-- All ids that can be given out on a graph with these fan trees: for the trees, for the bridges of
all self-loops, and for the sinks at all ports that lack one. -/
def idSupply (g : Graph) (trees : Batch) : List NodeId :=
  trees.ids ++ (g.loops.map Synthesis.bridgeId ++
    g.unconsumedPorts.map (fun u => Synthesis.sinkId u.port))

variable {g g₁ g' : Graph} {pass later : Pass} {passes : List Pass} {c : Change} {o : Options}

theorem planned_all (g : Graph) : g.planned Pass.all = g.idSupply g.fanPlan := by
  rw [idSupply, ← ids_bridgePlan, ← ids_sinkPlan]
  simp [planned, Pass.all, Pass.plan]

/-- A pass can take loops away but makes none. -/
theorem loops_subset_run (hg : g.WellFormed) (h : (pass.run g).result = .ok c) :
    (pass.run g).graph.loops ⊆ g.loops := by
  intro r hr
  obtain ⟨e, he, rfl⟩ := mem_loops.mp hr
  exact mem_loops.mpr ⟨e, Pass.selfLoops_subset_run hg h he, rfl⟩

/-- After a pass, those that follow it give out no ids that they would not have given out before. -/
theorem subperm_plan (hg : g.WellFormed) (h : (pass.run g).result = .ok c)
    (hlater : [pass, later].Sublist Pass.all) :
    (later.plan (pass.run g).graph).ids.Subperm (later.plan g).ids := by
  cases later with
  | expandFans => exact absurd hlater (by cases pass <;> decide)
  | bridgeLoops =>
    obtain ⟨loops, hperm, hsublist⟩ :=
      List.subperm_of_subset (nodup_distinct _) (loops_subset_run hg h)
    rw [Pass.plan, Pass.plan, ids_bridgePlan, ids_bridgePlan]
    exact ⟨_, hperm.map _, hsublist.map _⟩
  | addSinks =>
    have hpass : pass ≠ .addSinks := by
      intro hpass
      subst hpass
      exact absurd hlater (by decide)
    rw [Pass.plan, Pass.plan, ids_sinkPlan, ids_sinkPlan,
      (Pass.Stage.on h).unconsumedPorts_eq hg hpass]

/-- A pass gives out the ids that were planned for it, and leaves the others to those after it. -/
theorem ids_of_attempt (hg : g.WellFormed) (h : pass.attempt g = .ok g₁)
    (hpasses : (pass :: passes).Sublist Pass.all) :
    g₁.ids = g.ids ++ (pass.plan g).ids ∧ (g₁.planned passes).Subperm (g.planned passes) := by
  obtain ⟨c, hrun, rfl⟩ := Pass.attempt_eq_ok.mp h
  refine ⟨(Pass.revision_run hg hrun).ids_eq, ?_⟩
  refine subperm_flatMap fun later hl => subperm_plan hg hrun ?_
  exact ((List.singleton_sublist.mpr hl).cons_cons pass).trans hpasses

/-- If all planned ids are new and distinct, no pass finds an id taken. -/
theorem hasCode_of_foldlM (hg : g.WellFormed) (hpasses : passes.Sublist Pass.all)
    (hnodup : (g.ids ++ g.planned passes).Nodup) {f : Failure}
    (h : passes.foldlM (fun current pass => pass.attempt current) g = .error f) :
    f.hasCode .idInUse = false := by
  -- Along the run the ids that are in the graph and those still planned stay distinct.
  induction passes generalizing g with
  | nil => cases h
  | cons pass passes ih =>
    rw [planned, List.flatMap_cons, ← List.append_assoc] at hnodup
    rw [List.foldlM_cons, bind_eq_error] at h
    rcases h with hstop | ⟨g₁, hpass, hrest⟩
    · obtain ⟨problem, hrun, rfl⟩ := Pass.attempt_eq_error.mp hstop
      rcases Pass.problem_of_run hg hrun with ⟨id, rfl, htaken⟩ | ⟨_, port, side, rfl⟩
      · exact absurd (List.nodup_append.mp hnodup).1 htaken
      · rfl
    · obtain ⟨hids, ids, hperm, hsublist⟩ := ids_of_attempt hg hpass hpasses
      refine ih (Pass.wellFormed_of_attempt hg hpass)
        ((List.sublist_cons_self _ _).trans hpasses) ?_ hrest
      rw [hids]
      exact (hperm.append_left _).nodup_iff.mp (hnodup.sublist (hsublist.append_left _))

/-- A run that succeeds adds some of the planned ids, each at most once. -/
theorem ids_of_foldlM (hg : g.WellFormed) (hpasses : passes.Sublist Pass.all)
    (h : passes.foldlM (fun current pass => pass.attempt current) g = .ok g') :
    ∃ minted, g'.ids = g.ids ++ minted ∧ minted.Subperm (g.planned passes) := by
  induction passes generalizing g with
  | nil =>
    cases h
    exact ⟨[], (List.append_nil _).symm, List.Subperm.refl _⟩
  | cons pass passes ih =>
    rw [List.foldlM_cons, bind_eq_ok] at h
    obtain ⟨g₁, hpass, hrest⟩ := h
    obtain ⟨hids, hlater⟩ := ids_of_attempt hg hpass hpasses
    obtain ⟨minted, hadded, hminted⟩ := ih (Pass.wellFormed_of_attempt hg hpass)
      ((List.sublist_cons_self _ _).trans hpasses) hrest
    refine ⟨(pass.plan g).ids ++ minted, by rw [hadded, hids, List.append_assoc], ?_⟩
    rw [planned, List.flatMap_cons, List.subperm_append_left]
    exact hminted.trans hlater

/-- The ids of one origin. -/
def idsOf (g : Graph) : Origin → List NodeId
  | .given => g.ids
  | .twoWay .inward => (g.bundles .inward).flatMap (fun b => (g.inTree b).ids)
  | .twoWay .outward => (g.bundles .outward).flatMap (fun b => (g.outTree b).ids)
  | .bridge => g.loops.map Synthesis.bridgeId
  | .sink => g.unconsumedPorts.map (fun u => Synthesis.sinkId u.port)

theorem flatMap_idsOf (g : Graph) : Origin.all.flatMap g.idsOf = g.ids ++ g.idSupply g.fanPlan := by
  rw [idSupply, ids_fanPlan]
  simp [Origin.all, idsOf]

section
variable (hg : g.WellFormed) (hplain : g.PlainNames)
include hg hplain

theorem plain_of_mem_loops {r : Route} (hr : r ∈ g.loops) : r.source.Plain ∧ r.target.Plain :=
  ⟨hplain.plain_of_declares (hg.declares_loop hr).1,
    hplain.plain_of_declares (hg.declares_loop hr).2.1⟩

/-- Among plain names the third part of an id tells its origin. -/
theorem mark_of_mem_idsOf {origin : Origin} {id : NodeId} (h : id ∈ g.idsOf origin) :
    Synthesis.mark id = origin.mark := by
  cases origin with
  | given =>
    obtain ⟨n, hn, rfl⟩ := List.mem_map.mp h
    rw [Synthesis.mark, Synthesis.parts_of_plain (hplain n hn).1]
    rfl
  | twoWay d =>
    cases d with
    | inward => exact mark_of_mem_trees hg hplain (fun b => g.feeds.draw b.routes) h
    | outward => exact mark_of_mem_trees hg hplain Bundle.peers h
  | bridge =>
    obtain ⟨r, hr, rfl⟩ := List.mem_map.mp h
    obtain ⟨hs, ht⟩ := plain_of_mem_loops hg hplain hr
    rw [Synthesis.mark, Synthesis.parts_bridgeId hs ht]
    rfl
  | sink =>
    obtain ⟨u, hu, rfl⟩ := List.mem_map.mp h
    have hp := declares_of_mem_unconsumedPorts (List.mem_map.mpr ⟨u, hu, rfl⟩)
    rw [Synthesis.mark, Synthesis.parts_sinkId (hplain.plain_of_declares hp)]
    rfl

/-- The other parts tell apart the ids of one origin. -/
theorem nodup_idsOf (origin : Origin) : (g.idsOf origin).Nodup := by
  cases origin with
  | given => exact g.nodes.distinct
  | twoWay d =>
    cases d with
    | inward => exact nodup_ids_trees hg hplain .inward (fun b => g.feeds.draw b.routes)
    | outward => exact nodup_ids_trees hg hplain .outward Bundle.peers
  | bridge =>
    refine (nodup_distinct _).map_on fun r hr r' hr' h => ?_
    obtain ⟨hs, ht⟩ := plain_of_mem_loops hg hplain hr
    obtain ⟨hs', ht'⟩ := plain_of_mem_loops hg hplain hr'
    exact Synthesis.bridgeId_inj hs ht hs' ht' h
  | sink =>
    have hports : g.idsOf .sink = (g.unconsumedPorts.map Unconsumed.port).map Synthesis.sinkId := by
      rw [List.map_map]
      rfl
    rw [hports]
    refine (nodup_unconsumedPorts g).map_on fun p hp q hq h => ?_
    exact Synthesis.sinkId_inj (hplain.plain_of_declares (declares_of_mem_unconsumedPorts hp))
      (hplain.plain_of_declares (declares_of_mem_unconsumedPorts hq)) h

/-- All ids that can be given out among plain names are new and distinct. -/
theorem nodup_idSupply : (g.ids ++ g.idSupply g.fanPlan).Nodup := by
  rw [← flatMap_idsOf]
  refine List.nodup_flatMap.mpr ⟨fun origin _ => nodup_idsOf hg hplain origin, ?_⟩
  refine (List.pairwise_map.mp Origin.nodup_marks).imp ?_
  intro a b hne id ha hb
  exact hne ((mark_of_mem_idsOf hg hplain ha).symm.trans (mark_of_mem_idsOf hg hplain hb))

end

/-- Where no name holds a character that ids are put together with, all ids that can be given out
are new and distinct. So no pass ever finds an id taken, and a run adds only such ids. -/
theorem distinct_ids_normalize (hv : Validator.structural.accepts g = true)
    (hplain : g.PlainNames) : ∃ trees, g.fanBatch = .ok trees ∧
      (g.ids ++ g.idSupply trees).Nodup ∧
      ∀ o : Options, (∀ f, g.normalize o = .error f → f.hasCode .idInUse = false) ∧
        ∀ g', g.normalize o = .ok g' →
          ∃ minted, g'.ids = g.ids ++ minted ∧ minted.Subperm (g.idSupply trees) := by
  have hg := accepts_iff.mp hv
  have hsupply := nodup_idSupply hg hplain
  refine ⟨g.fanPlan, hg.fanBatch_eq, hsupply, fun o => ?_⟩
  have hpasses : o.passes.Sublist Pass.all := List.filter_sublist
  have hplanned : (g.planned o.passes).Sublist (g.idSupply g.fanPlan) := by
    rw [← planned_all]
    exact hpasses.flatMap _
  rw [normalize_eq_foldlM hg]
  constructor
  · intro f h
    exact hasCode_of_foldlM hg hpasses (hsupply.sublist (hplanned.append_left _)) h
  · intro g' h
    obtain ⟨minted, hids, hminted⟩ := ids_of_foldlM hg hpasses h
    exact ⟨minted, hids, hminted.trans hplanned.subperm⟩

/-- In the sample there are ids for the nodes of two trees, for a bridge and for two sinks. -/
theorem distinct_ids_normalize_sample : Validator.structural.accepts sample = true ∧
    sample.PlainNames ∧ ∃ trees, sample.fanBatch = .ok trees ∧
      sample.idSupply trees = ["c_i_JOIN_0_1", "a_o_DUPLICATE_0_1", "id_x@i_to_x@o",
        "d_consume_dummy_o", "x_consume_dummy_o"] ∧
      (sample.ids ++ sample.idSupply trees).Nodup ∧
        ∀ f, sample.normalize {} = .error f → f.hasCode .idInUse = false := by
  have hv : Validator.structural.accepts sample = true := by decide
  have hplain : sample.PlainNames := by decide
  obtain ⟨trees, htrees, hnodup, hruns⟩ := distinct_ids_normalize hv hplain
  have hplan : trees = sample.fanPlan := by
    rw [(accepts_iff.mp hv).fanBatch_eq] at htrees
    exact (Except.ok.inj htrees).symm
  refine ⟨hv, hplain, trees, htrees, ?_, hnodup, (hruns {}).1⟩
  rw [hplan]
  decide +kernel

end Graph
end PortNet
