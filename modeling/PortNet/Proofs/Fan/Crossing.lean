import Mathlib.Data.List.Perm.Basic
import PortNet.Fan.Expansion
import PortNet.Proofs.Fan.Tree

namespace PortNet

namespace Feeds

theorem length_draw (feeds : Feeds) (rs : List Route) : (feeds.draw rs).length = rs.length := by
  induction rs generalizing feeds with
  | nil => rfl
  | cons r rs ih =>
    rw [draw]
    split
    · rw [List.length_cons, List.length_cons, ih]
    · rw [List.length_cons, List.length_cons, ih]

/-- The feed that is handed out first leaves all others behind. -/
theorem perm_eraseP {feeds : Feeds} {r : Route} {f : Route × Port}
    (h : feeds.find? (fun f => f.1 = r) = some f) :
    feeds.Perm (f :: feeds.eraseP (fun f => f.1 = r)) := by
  obtain ⟨hr, before, after, rfl, hbefore⟩ := List.find?_eq_some_iff_append.mp h
  rw [List.eraseP_append_right _ (by simpa using hbefore), List.eraseP_cons, hr, cond_true]
  exact List.perm_middle

theorem filter_mem_cons {feeds : Feeds} {r : Route} {rs : List Route}
    (h : r ∈ feeds.map Prod.fst → r ∈ rs) :
    feeds.filter (fun f => decide (f.1 ∈ r :: rs)) =
      feeds.filter (fun f => decide (f.1 ∈ rs)) := by
  apply List.filter_congr
  intro f hf
  by_cases hr : f.1 = r
  · have hm := h (List.mem_map.mpr ⟨f, hf, hr⟩)
    simp [hr, hm]
  · simp [hr]

/-- Drawing hands out every feed for one of the routes, and the source of each route that is left
without a feed. No route may have more feeds than it occurs. -/
theorem perm_zip_draw {feeds : Feeds} {rs : List Route}
    (h : ∀ r ∈ rs, (feeds.map Prod.fst).count r ≤ rs.count r) :
    (rs.zip (feeds.draw rs)).Perm (feeds.filter (fun f => decide (f.1 ∈ rs)) ++
      (rs.diff (feeds.map Prod.fst)).map (fun r => (r, r.source))) := by
  induction rs generalizing feeds with
  | nil => simp [draw]
  | cons r rs ih =>
    have hhead := h r List.mem_cons_self
    rw [List.count_cons_self] at hhead
    cases hf : feeds.find? (fun f => f.1 = r) with
    | some f =>
      have hr : f.1 = r := by simpa using List.find?_some hf
      have hperm := perm_eraseP hf
      have hroutes := hperm.map Prod.fst
      rw [List.map_cons, hr] at hroutes
      have hcount : ∀ q ∈ rs,
          ((feeds.eraseP (fun f => f.1 = r)).map Prod.fst).count q ≤ rs.count q := by
        intro q hq
        have hle := h q (List.mem_cons_of_mem r hq)
        rw [hroutes.count_eq, List.count_cons, List.count_cons] at hle
        omega
      have hmem : r ∈ (feeds.eraseP (fun f => f.1 = r)).map Prod.fst → r ∈ rs := by
        intro hm
        have hpos := List.count_pos_iff.mpr hm
        rw [hroutes.count_eq, List.count_cons_self] at hhead
        exact List.count_pos_iff.mp (by omega)
      have hfeeds := hperm.filter (fun f => decide (f.1 ∈ r :: rs))
      rw [List.filter_cons_of_pos (by simp [hr]), filter_mem_cons hmem] at hfeeds
      have hpair : (r, f.2) = f := Prod.ext hr.symm rfl
      rw [draw, hf, List.Perm.diff_left _ hroutes, List.diff_cons, List.erase_cons_head]
      simp only [List.zip_cons_cons, hpair]
      exact ((ih hcount).cons f).trans (hfeeds.append_right _).symm
    | none =>
      have hno : r ∉ feeds.map Prod.fst := by
        intro hm
        obtain ⟨f, hm, hr⟩ := List.mem_map.mp hm
        simpa [hr] using List.find?_eq_none.mp hf f hm
      have hcount : ∀ q ∈ rs, (feeds.map Prod.fst).count q ≤ rs.count q := by
        intro q hq
        have hle := h q (List.mem_cons_of_mem r hq)
        by_cases hqr : q = r
        · rw [hqr, List.count_eq_zero_of_not_mem hno]
          exact Nat.zero_le _
        · rwa [List.count_cons_of_ne (Ne.symm hqr)] at hle
      rw [draw, hf, List.cons_diff_of_not_mem hno, filter_mem_cons (fun hm => absurd hm hno)]
      simp only [List.zip_cons_cons, List.map_cons]
      exact ((ih hcount).cons (r, r.source)).trans List.perm_middle.symm

end Feeds

namespace Batch
variable (b : Batch) (root : Port) (taken : List Route)

@[simp] theorem nodes_withhold : (b.withhold root taken).batch.nodes = b.nodes := by
  simp [withhold]

@[simp] theorem edges_withhold : (b.withhold root taken).batch.edges =
    b.edges.filter (fun e => !taken.contains ⟨root, e.target⟩) := by
  simp [withhold, Function.comp_def]

@[simp] theorem feeds_withhold : (b.withhold root taken).feeds =
    (b.edges.filter (fun e => taken.contains ⟨root, e.target⟩)).map
      (fun e => (⟨root, e.target⟩, e.source)) := by
  simp [withhold]

@[simp] theorem nodes_concat (batches : List Batch) :
    (concat batches).nodes = batches.flatMap Batch.nodes := by
  induction batches with
  | nil => rfl
  | cons b batches ih => exact congrArg (b.nodes ++ ·) ih

@[simp] theorem edges_concat (batches : List Batch) :
    (concat batches).edges = batches.flatMap Batch.edges := by
  induction batches with
  | nil => rfl
  | cons b batches ih => exact congrArg (b.edges ++ ·) ih

end Batch
end PortNet
