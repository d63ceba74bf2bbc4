import PortNet.Proofs.Normalization.Stage

namespace PortNet

theorem Edge.isSelfLoop_congr {e e' : Edge} (h : e.route = e'.route) :
    e.isSelfLoop = e'.isSelfLoop := by
  obtain ⟨hs, ht⟩ := Route.mk.inj h
  rw [isSelfLoop, isSelfLoop, hs, ht]

namespace Graph

/-- Bridging puts a second data edge on a port: a continuation self-loop, which has not counted as
data before, meets a data edge or another self-loop there. A data edge on the very route of the loop
shares its bridge, unless it has been drawn into a tree. -/
def Clashes (g : Graph) (d : Direction) : Prop :=
  ∃ c ∈ g.edges, c.isSelfLoop = true ∧ c.isContinuation = true ∧
    ∃ e ∈ g.edges, d.near e = d.near c ∧ (e.isContinuation = true → e.isSelfLoop = true) ∧
      (e.route ≠ c.route ∨ g.bundled e = true)

variable {g g' : Graph} {d : Direction} {e e' : Edge} {o : Options}

theorem not_clashes_of_nodup (hn : ∀ d, (g.nearEnds d).Nodup)
    (h : ((g.dataEdges.filter (fun e => !e.isSelfLoop)).map d.near ++
      g.loops.map d.nearEnd).Nodup) : ¬ g.Clashes d := by
  intro hall
  rcases hall with ⟨c, hc, hloop, hcont, e, he, hnear, hdata, hne | hb⟩
  · obtain ⟨_, hloops, hdisjoint⟩ := List.nodup_append.mp h
    have hcr : c.route ∈ g.loops := mem_loops.mpr ⟨c, mem_selfLoops.mpr ⟨hc, hloop⟩, rfl⟩
    cases hl : e.isSelfLoop with
    | true =>
      have her : e.route ∈ g.loops := mem_loops.mpr ⟨e, mem_selfLoops.mpr ⟨he, hl⟩, rfl⟩
      have hinj := (List.nodup_map_iff_inj_on (nodup_distinct _)).mp hloops
      exact hne (hinj e.route her c.route hcr (by simpa using hnear))
    | false =>
      have hd : e.isContinuation = false := by
        apply Bool.eq_false_iff.mpr
        intro hd
        rw [hdata hd] at hl
        cases hl
      have hfirst : d.near e ∈ (g.dataEdges.filter (fun e => !e.isSelfLoop)).map d.near :=
        List.mem_map.mpr ⟨e, List.mem_filter.mpr ⟨mem_dataEdges.mpr ⟨he, hd⟩, by simp [hl]⟩, rfl⟩
      exact hdisjoint _ hfirst _ (List.mem_map.mpr ⟨c.route, hcr, d.nearEnd_route c⟩) hnear
  · rw [bundled_eq_false hn] at hb
    cases hb

/-- Two ends that meet after bridging have met on data edges before, or one of them is that of a
continuation self-loop. -/
theorem nodup_of_not_clashes (hn : (g.nearEnds d).Nodup) (h : ¬ g.Clashes d) :
    ((g.dataEdges.filter (fun e => !e.isSelfLoop)).map d.near ++ g.loops.map d.nearEnd).Nodup := by
  have hdata : ∀ c ∈ g.edges, c.isSelfLoop = true → ∀ e ∈ g.edges, d.near e = d.near c →
      (e.isContinuation = true → e.isSelfLoop = true) → e.route ≠ c.route → c ∈ g.dataEdges := by
    intro c hc hloop e he hnear hkind hne
    refine mem_dataEdges.mpr ⟨hc, Bool.eq_false_iff.mpr ?_⟩
    exact fun hcont => h ⟨c, hc, hloop, hcont, e, he, hnear, hkind, .inl hne⟩
  refine List.nodup_append.mpr ⟨?_, ?_, ?_⟩
  · rw [← map_near_dataEdges] at hn
    exact hn.sublist (List.filter_sublist.map _)
  · refine (List.nodup_map_iff_inj_on (nodup_distinct _)).mpr ?_
    intro r hr r' hr' hnear
    obtain ⟨e, he, rfl⟩ := mem_loops.mp hr
    obtain ⟨e', he', rfl⟩ := mem_loops.mp hr'
    obtain ⟨he, hl⟩ := mem_selfLoops.mp he
    obtain ⟨he', hl'⟩ := mem_selfLoops.mp he'
    rw [Direction.nearEnd_route, Direction.nearEnd_route] at hnear
    by_contra hne
    have hd := hdata e he hl e' he' hnear.symm (fun _ => hl') (Ne.symm hne)
    have hd' := hdata e' he' hl' e he hnear (fun _ => hl) hne
    exact hne (route_eq_of_nodup hn hd' hd hnear)
  · intro p hp q hq heq
    subst heq
    obtain ⟨e, he, rfl⟩ := List.mem_map.mp hp
    obtain ⟨he, hl⟩ := List.mem_filter.mp he
    obtain ⟨r, hr, hnear⟩ := List.mem_map.mp hq
    obtain ⟨c, hc, rfl⟩ := mem_loops.mp hr
    obtain ⟨hc, hloop⟩ := mem_selfLoops.mp hc
    rw [Direction.nearEnd_route] at hnear
    obtain ⟨hedge, hkind⟩ := mem_dataEdges.mp he
    have hne : e.route ≠ c.route := by
      intro hroute
      rw [Edge.isSelfLoop_congr hroute, hloop] at hl
      cases hl
    have hd := hdata c hc hloop e hedge hnear.symm (fun hcont => by simp [hkind] at hcont) hne
    exact hne (route_eq_of_nodup hn hd he hnear.symm)

/-- A clash in the expanded graph was one before: where a tree edge is met now, the tree has taken
the place of edges at the same port. -/
theorem clashes_of_expandFans (hg : g.WellFormed) {change : Change}
    (h : g.expandFans.result = .ok change) (hclash : g.expandFans.graph.Clashes d) :
    g.Clashes d := by
  obtain ⟨c, hc, hloop, hcont, e, he, hnear, hkind, hne⟩ := hclash
  rw [mem_expandFans_iff_of_continuation hg h hcont] at hc
  rw [bundled_eq_false (nodup_nearEnds_expandFans hg h), or_iff_left Bool.false_ne_true] at hne
  rcases (revision_expandFans hg h).mem_edges_iff.mp he with ⟨hold, _⟩ | hnew
  · exact ⟨c, hc, hloop, hcont, e, hold, hnear, hkind, .inl hne⟩
  · have hmet := near_mem_nearEnds_of_mem_fanPlan hg h hnew (hnear ▸ hg.contains_near hc d)
    obtain ⟨e₀, he₀, hnear₀⟩ := mem_nearEnds_iff_edge.mp hmet
    have hbundled := bundled_of_mem_fanPlan hg h he₀ hnew hnear₀.symm
    obtain ⟨hedge₀, hdata₀⟩ := mem_dataEdges.mp he₀
    exact ⟨c, hc, hloop, hcont, e₀, hedge₀, hnear₀.trans hnear,
      fun hk => by simp [hdata₀] at hk, .inr hbundled⟩

/-- A clash stays one: in the place of a bundled edge a tree edge is met. -/
theorem clashes_expandFans (hg : g.WellFormed) {change : Change}
    (h : g.expandFans.result = .ok change) (hclash : g.Clashes d) :
    g.expandFans.graph.Clashes d := by
  obtain ⟨c, hc, hloop, hcont, e, he, hnear, hkind, hne⟩ := hclash
  have hc' := (mem_expandFans_iff_of_continuation hg h hcont).mpr hc
  cases hb : g.bundled e with
  | false =>
    rw [hb, or_iff_left Bool.false_ne_true] at hne
    have he' := (revision_expandFans hg h).mem_edges_iff.mpr (.inl ⟨he, by simp [hb]⟩)
    exact ⟨c, hc', hloop, hcont, e, he', hnear, hkind, .inl hne⟩
  | true =>
    have hmem := mem_dataEdges.mpr ⟨he, isContinuation_of_bundled hb⟩
    have hport : d.near e ∈ g.expandFans.graph.nearEnds d := by
      rw [(perm_nearEnds_expandFans hg h d).mem_iff]
      exact List.mem_append_left _ (mem_distinct.mpr (mem_nearEnds_iff_edge.mpr ⟨e, hmem, rfl⟩))
    obtain ⟨e', he', hnear'⟩ := mem_nearEnds_iff_edge.mp hport
    have hnew := mem_fanPlan_of_bundled hg h hmem hb he' hnear'
    obtain ⟨hedge', hdata'⟩ := mem_dataEdges.mp he'
    refine ⟨c, hc', hloop, hcont, e', hedge', hnear'.trans hnear,
      fun hk => by simp [hdata'] at hk, .inl fun hroute => ?_⟩
    have hloop' := not_isSelfLoop_of_mem_fanPlan hg h hnew
    rw [Edge.isSelfLoop_congr hroute, hloop] at hloop'
    cases hloop'

/-- After expanding and bridging, a port is shared exactly where there was a clash. -/
theorem nodup_nearEnds_iff_not_clashes (hg : g.WellFormed) {g₁ g₂ : Graph} {enabled : Bool}
    (hfans : Pass.expandFans.Stage g true g₁) (hloops : Pass.bridgeLoops.Stage g₁ enabled g₂) :
    (g₂.nearEnds d).Nodup ↔ ¬ (enabled = true ∧ g.Clashes d) := by
  have hg₁ := hfans.wellFormed hg
  cases hfans with
  | on hrun =>
    have hn := nodup_nearEnds_expandFans hg hrun
    cases hloops with
    | off => exact ⟨fun _ hb => Bool.false_ne_true hb.1, fun _ => hn d⟩
    | on hbridged =>
      rw [eq_self, true_and]
      refine (nodup_nearEnds_bridgeLoops hg₁ hbridged d).trans ⟨?_, ?_⟩
      · intro hall hclash
        exact not_clashes_of_nodup hn hall (clashes_expandFans hg hrun hclash)
      · intro hno
        exact nodup_of_not_clashes (hn d) fun hc => hno (clashes_of_expandFans hg hrun hc)

theorem nodup_nearEnds_of_sinks (hg : g.WellFormed) {enabled : Bool}
    (h : Pass.addSinks.Stage g enabled g') : (g'.nearEnds d).Nodup ↔ (g.nearEnds d).Nodup := by
  cases h with
  | off => exact Iff.rfl
  | on hrun => exact nodup_nearEnds_addSinks hg hrun d

theorem bundles_normalize (h : g.normalize o = .ok g') (hon : o.expandFans = true)
    (d : Direction) : g'.bundles d = [] ↔ ¬ (o.bridgeLoops = true ∧ g.Clashes d) := by
  obtain ⟨hg, g₁, g₂, hfans, hloops, hsinks⟩ := stages_of_normalize h
  have hg₂ := hloops.wellFormed (hfans.wellFormed hg)
  rw [hon] at hfans
  rw [(hsinks.wellFormed hg₂).bundles_eq_nil_iff_nodup, nodup_nearEnds_of_sinks hg₂ hsinks]
  exact nodup_nearEnds_iff_not_clashes hg hfans hloops

theorem selfLoops_normalize (h : g.normalize o = .ok g') (hon : o.bridgeLoops = true) :
    g'.selfLoops = [] := by
  obtain ⟨hg, g₁, g₂, hfans, hloops, hsinks⟩ := stages_of_normalize h
  have hg₁ := hfans.wellFormed hg
  have hg₂ := hloops.wellFormed hg₁
  rw [hon] at hloops
  cases hloops with
  | on hrun => exact hsinks.selfLoops_eq_nil hg₂ (selfLoops_bridgeLoops hg₁ hrun)

theorem unconsumedPorts_normalize (h : g.normalize o = .ok g') (hon : o.addSinks = true) :
    g'.unconsumedPorts = [] := by
  obtain ⟨_, _, _, _, _, hsinks⟩ := stages_of_normalize h
  rw [hon] at hsinks
  cases hsinks with
  | on hrun => exact unconsumedPorts_addSinks hrun

theorem not_clashes (h : ∀ e ∈ g.edges, e.isContinuation = true → e.isSelfLoop = false)
    (d : Direction) : ¬ g.Clashes d := by
  intro hall
  obtain ⟨c, hc, hloop, hcont, _⟩ := hall
  rw [h c hc hcont] at hloop
  cases hloop

/-- What a normalized graph satisfies. Each pass that is on establishes its own condition for good,
but for one case: the bridge of a continuation self-loop can bring up a shared port again. -/
theorem normalize_postconditions (h : g.normalize o = .ok g') :
    (o.expandFans = true → ∀ d, g'.bundles d = [] ↔ ¬ (o.bridgeLoops = true ∧ g.Clashes d)) ∧
      (o.bridgeLoops = true → ∀ e ∈ g'.edges, e.source.node ≠ e.target.node) ∧
      (o.addSinks = true → g'.unconsumedPorts = []) := by
  refine ⟨bundles_normalize h, fun hon e he hnode => ?_, unconsumedPorts_normalize h⟩
  exact List.filter_eq_nil_iff.mp (selfLoops_normalize h hon) e he (decide_eq_true hnode)

/-- The fans and the loop of the sample leave nothing behind. -/
theorem normalize_postconditions_sample : ∃ g', sample.normalize {} = .ok g' ∧
    (∀ d, g'.bundles d = []) ∧ (∀ e ∈ g'.edges, e.source.node ≠ e.target.node) ∧
      g'.unconsumedPorts = [] := by
  obtain ⟨g', h⟩ := exists_normalize_sample
  obtain ⟨hfans, hloops, hsinks⟩ := normalize_postconditions h
  refine ⟨g', h, fun d => (hfans rfl d).mpr ?_, hloops rfl, hsinks rfl⟩
  exact fun hc => not_clashes (by decide) d hc.2

/-- A compound whose input leads to a child as data and to its own output as a continuation. -/
def reentrant : Graph where
  nodes := .ofList [
    .build "X" { inputs := some (.ofList [("a", .named "t")])
                 outputs := some (.ofList [("b", .named "t")]) } .unstated,
    .build "Y" { inputs := some (.ofList [("i", .named "t")]), atomic := some true } (.inside "X")]
  edges := [(Edge.between ⟨"X", "a"⟩ ⟨"X", "b"⟩).asContinuation,
    .between ⟨"X", "a"⟩ ⟨"Y", "i"⟩]

/-- The bridge of the continuation makes the input feed two data edges, after the expansion of
fans. -/
theorem shared_normalize_reentrant : Validator.structural.accepts reentrant = true ∧
    ∃ g', reentrant.normalize {} = .ok g' ∧
      (g'.bundles .outward).map Bundle.anchor = [⟨"X", "a"⟩] := by
  have hrun : (reentrant.normalize {}).toOption.map
      (fun g' => (g'.bundles .outward).map Bundle.anchor) = some [⟨"X", "a"⟩] := by
    decide +kernel
  obtain ⟨g', hg', hbundles⟩ := Option.map_eq_some_iff.mp hrun
  exact ⟨by decide, g', eq_ok_of_toOption hg', hbundles⟩

end Graph
end PortNet
