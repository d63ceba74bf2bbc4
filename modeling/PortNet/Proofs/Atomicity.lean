import PortNet.Proofs.Fan.Trails
import PortNet.Proofs.SelfLoop
import PortNet.Proofs.Sink

namespace PortNet

namespace Graph
variable {g g' : Graph} {problem : Problem}

/-- Replacing routes succeeds exactly if all ids are different, whatever else the graph and the
batch hold. -/
theorem exists_ok_replaceRoutes_iff {routes : List Route} {batch : Batch} :
    (∃ c, (g.replaceRoutes routes batch).result = .ok c) ↔ (g.ids ++ batch.ids).Nodup := by
  constructor
  · intro hall
    obtain ⟨c, h⟩ := hall
    exact (revision_replaceRoutes h).nodup_ids
  · intro hnodup
    cases h : (g.replaceRoutes routes batch).result with
    | ok c => exact ⟨c, rfl⟩
    | error problem =>
      obtain ⟨_, _, _, htaken⟩ := replaceRoutes_error h
      exact absurd hnodup htaken

/-- Expanding fans is all or nothing on every graph, well formed or not, and so is replacing routes,
for every batch. -/
theorem expandFans_atomic (g : Graph) :
    (∀ problem, g.expandFans.result = .error problem → g.expandFans.graph = g) ∧
      ∀ routes batch,
        ((∃ c, (g.replaceRoutes routes batch).result = .ok c) ↔ (g.ids ++ batch.ids).Nodup) ∧
        (∀ c, (g.replaceRoutes routes batch).result = .ok c →
          Revision g (g.replaceRoutes routes batch).graph (offRoutes routes) batch) ∧
        ∀ problem, (g.replaceRoutes routes batch).result = .error problem →
          (g.replaceRoutes routes batch).graph = g := by
  refine ⟨fun problem h => ?_, fun routes batch =>
    ⟨exists_ok_replaceRoutes_iff, fun c h => revision_replaceRoutes h,
      fun problem h => (replaceRoutes_error h).1⟩⟩
  rw [expandFans] at h ⊢
  split at h
  · rfl
  · exact (replaceRoutes_error h).1

/-- Two fans whose trees ask for one and the same id. -/
def homonyms : Graph where
  nodes := .ofList [
    .build "a_b" { outputs := some (.ofList [("c", .named "t")]) } .unstated,
    .build "a" { outputs := some (.ofList [("b_c", .named "t")]) } .unstated,
    stub "u" true, stub "v" true, stub "x" true, stub "y" true]
  edges := [.between ⟨"a_b", "c"⟩ ⟨"u", "i"⟩, .between ⟨"a_b", "c"⟩ ⟨"v", "i"⟩,
    .between ⟨"a", "b_c"⟩ ⟨"x", "i"⟩, .between ⟨"a", "b_c"⟩ ⟨"y", "i"⟩]

/-- Neither the trees of the first fan nor the nodes before a repeated id are left behind. -/
theorem expandFans_atomic_homonyms :
    homonyms.expandFans.result = .error (.idInUse "a_b_c_DUPLICATE_0_1") ∧
    homonyms.expandFans.graph = homonyms ∧
    ∃ problem, (homonyms.replaceRoutes [⟨⟨"a_b", "c"⟩, ⟨"u", "i"⟩⟩]
        ⟨[stub "new" true, stub "new" true], []⟩).result = .error problem ∧
      (homonyms.replaceRoutes [⟨⟨"a_b", "c"⟩, ⟨"u", "i"⟩⟩]
        ⟨[stub "new" true, stub "new" true], []⟩).graph = homonyms := by
  obtain ⟨hfans, hreplace⟩ := expandFans_atomic homonyms
  have hrun : homonyms.expandFans.result = .error (.idInUse "a_b_c_DUPLICATE_0_1") := by
    decide +kernel
  have hrepeat : (homonyms.replaceRoutes [⟨⟨"a_b", "c"⟩, ⟨"u", "i"⟩⟩]
      ⟨[stub "new" true, stub "new" true], []⟩).result = .error (.idInUse "new") := by
    decide +kernel
  exact ⟨hrun, hfans _ hrun, _, hrepeat, (hreplace _ _).2.2 _ hrepeat⟩

/-- Bridging that is stopped by a port has changed nothing. Stopped by an id, it has taken all the
self-loops out, and leaves the bridges before the blocked one without an edge. -/
theorem bridgeLoops_stopped (h : g.bridgeLoops.result = .error problem) :
    (g.bridgeLoops.graph = g ∧ ∃ port side, problem = .undeclaredLoop port side) ∨
      (g.bridgeLoops.graph ≠ g ∧ ∃ before n after, g.bridgePlan.nodes = before ++ n :: after ∧
        problem = .idInUse n.id ∧ g.Blocked before n ∧
        Revision g g.bridgeLoops.graph (fun e => !e.isSelfLoop) ⟨before, []⟩) := by
  unfold bridgeLoops at h ⊢
  split at h
  · rename_i failed hfailed
    cases h
    obtain ⟨_, _, hbridge⟩ := exists_error_of_mapM hfailed
    exact .inl ⟨rfl, bridge_error hbridge⟩
  · rename_i bridges hb
    dsimp only at h ⊢
    split at h
    · rename_i left failed ha
      cases h
      rw [(eq_bridgePlan_of_mapM hb).1] at ha
      obtain ⟨before, n, after, hsplit, rfl, hblocked, hcut⟩ := addNew_blocked ha
      have hrevision : Revision g left (fun e => !e.isSelfLoop) ⟨before, []⟩ :=
        ⟨hcut.nodes, by rw [hcut.edges, List.filter_true]; rfl, hcut.extras⟩
      refine .inr ⟨?_, before, n, after, hsplit, rfl, ⟨hblocked.free, hblocked.taken⟩, hrevision⟩
      intro hsame
      rw [show left = g from hsame] at hrevision
      -- the blocked bridge stands for a loop, which cannot be among the edges any more
      have hn : n ∈ g.bridgePlan.nodes := hsplit ▸ List.mem_append_right _ List.mem_cons_self
      obtain ⟨r, hr, _⟩ := List.mem_map.mp hn
      obtain ⟨e, he, _⟩ := mem_loops.mp hr
      obtain ⟨he, hloop⟩ := mem_selfLoops.mp he
      rcases hrevision.mem_edges_iff.mp he with ⟨_, hkeep⟩ | hnew
      · simp [hloop] at hkeep
      · cases hnew
    · cases h

/-- Adding sinks that is stopped by an id has changed nothing only if it was stopped at the first
port; otherwise the sinks before the blocked one stay, each with its edge. -/
theorem addSinks_stopped (h : g.addSinks.result = .error problem) :
    ∃ before u after, g.unconsumedPorts = before ++ u :: after ∧ problem = .idInUse u.sink.id ∧
      g.Blocked (before.map Unconsumed.sink) u.sink ∧ (g.addSinks.graph = g ↔ before = []) ∧
      Revision g g.addSinks.graph (fun _ => true) (sinksAt before) := by
  simp only [addSinks] at h ⊢
  split at h
  · rename_i left failed ha
    cases h
    obtain ⟨before, u, after, hsplit, rfl, hblocked, hrevision⟩ := attachSinks_stopped ha
    refine ⟨before, u, after, hsplit, rfl, hblocked, ⟨fun hsame => ?_, fun hnone => ?_⟩, hrevision⟩
    · have hnodes := hrevision.nodes
      rw [show left = g from hsame] at hnodes
      exact List.map_eq_nil_iff.mp (List.self_eq_append_right.mp hnodes)
    · rw [hnone] at hrevision
      exact hrevision.eq_of_empty
  · cases h

/-- What bridging and adding sinks leave behind when they are stopped. Neither puts the graph back:
the part of the work that was done before the blocked node stays, and of the bridging all removals
do. -/
theorem residue_of_stopped (g : Graph) :
    (∀ problem, g.bridgeLoops.result = .error problem →
      (g.bridgeLoops.graph = g ∧ ∃ port side, problem = .undeclaredLoop port side) ∨
      (g.bridgeLoops.graph ≠ g ∧ ∃ before n after, g.bridgePlan.nodes = before ++ n :: after ∧
        problem = .idInUse n.id ∧ g.Blocked before n ∧
        Revision g g.bridgeLoops.graph (fun e => !e.isSelfLoop) ⟨before, []⟩)) ∧
    ∀ problem, g.addSinks.result = .error problem →
      ∃ before u after, g.unconsumedPorts = before ++ u :: after ∧ problem = .idInUse u.sink.id ∧
        g.Blocked (before.map Unconsumed.sink) u.sink ∧ (g.addSinks.graph = g ↔ before = []) ∧
        Revision g g.addSinks.graph (fun _ => true) (sinksAt before) :=
  ⟨fun _ => bridgeLoops_stopped, fun _ => addSinks_stopped⟩

/-- The bridge for the loop at `x` and the sink for the output of `y` have ids that are taken. -/
def occupied : Graph where
  nodes := .ofList [
    .build "x" { inputs := some (.ofList [("a", .named "t")])
                 outputs := some (.ofList [("b", .named "t")]) } .unstated,
    .build "y" { outputs := some (.ofList [("o", .named "t")]) } .unstated,
    .build "id_x@a_to_x@b" { atomic := some true } .unstated,
    .build "y_consume_dummy_o" { atomic := some true } .unstated]
  edges := [.between ⟨"x", "a"⟩ ⟨"x", "b"⟩]

theorem residue_of_stopped_occupied :
    (∃ before n after, occupied.bridgePlan.nodes = before ++ n :: after ∧
      n.id = "id_x@a_to_x@b" ∧ occupied.Blocked before n ∧
      Revision occupied occupied.bridgeLoops.graph (fun e => !e.isSelfLoop) ⟨before, []⟩) ∧
    ∃ before u after, occupied.unconsumedPorts = before ++ u :: after ∧
      u.sink.id = "y_consume_dummy_o" ∧
      occupied.Blocked (before.map Unconsumed.sink) u.sink ∧
      Revision occupied occupied.addSinks.graph (fun _ => true) (sinksAt before) := by
  obtain ⟨hloops, hsinks⟩ := residue_of_stopped occupied
  have hbridge : occupied.bridgeLoops.result = .error (.idInUse "id_x@a_to_x@b") := by
    decide +kernel
  have hsink : occupied.addSinks.result = .error (.idInUse "y_consume_dummy_o") := by
    decide +kernel
  constructor
  · rcases hloops _ hbridge with ⟨_, _, _, hport⟩ | ⟨_, before, n, after, hsplit, hid, hrest⟩
    · cases hport
    · exact ⟨before, n, after, hsplit, (Problem.idInUse.inj hid).symm, hrest⟩
  · obtain ⟨before, u, after, hsplit, hid, hblocked, _, hrevision⟩ := hsinks _ hsink
    exact ⟨before, u, after, hsplit, (Problem.idInUse.inj hid).symm, hblocked, hrevision⟩

/-- The loop is gone although no bridge was added, and the sink of `x` stays although that of `y`
was refused. -/
theorem partial_change_occupied :
    occupied.bridgeLoops.result = .error (.idInUse "id_x@a_to_x@b") ∧
    occupied.edges.length = 1 ∧ occupied.bridgeLoops.graph.edges = [] ∧
    occupied.addSinks.result = .error (.idInUse "y_consume_dummy_o") ∧
    occupied.contains "x_consume_dummy_b" = false ∧
    occupied.addSinks.graph.contains "x_consume_dummy_b" = true := by
  decide +kernel

end Graph
end PortNet
