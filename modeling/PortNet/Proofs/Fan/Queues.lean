import Mathlib.Logic.Function.Basic
import PortNet.Proofs.Fan.JoinOrder

namespace PortNet

/-- The ports that are kept back for each route, the next one to be used in front. -/
abbrev Queues := Route → List Port

namespace Queues

def push (queues : Queues) (feed : Route × Port) : Queues :=
  Function.update queues feed.1 (queues feed.1 ++ [feed.2])

/-- Takes a port for each route off its queue; a route whose queue is empty keeps its own source.
What is left of the queues comes with the ports. -/
def take (queues : Queues) : List Route → List Port × Queues
  | [] => ([], queues)
  | r :: rs =>
    let (ports, left) := take (Function.update queues r (queues r).tail) rs
    ((queues r).head?.getD r.source :: ports, left)

/-- A queue from which nothing is taken stays. -/
theorem take_of_not_mem {queues : Queues} {rs : List Route} {r : Route} (h : r ∉ rs) :
    (queues.take rs).2 r = queues r := by
  induction rs generalizing queues with
  | nil => rfl
  | cons q rs ih =>
    rw [List.mem_cons, not_or] at h
    obtain ⟨hne, hrs⟩ := h
    have hrest : (take (Function.update queues q (queues q).tail) rs).2 r =
        Function.update queues q (queues q).tail r := ih hrs
    rwa [Function.update_of_ne hne] at hrest

end Queues

namespace Feeds
variable {feeds : Feeds} {rest : Queues} {r : Route} {rs : List Route}

/-- All feeds in queues, in their order. -/
def queues (feeds : Feeds) : Queues := feeds.foldl Queues.push fun _ => []

theorem foldl_push (feeds : Feeds) (queues : Queues) (r : Route) :
    feeds.foldl Queues.push queues r =
      queues r ++ (feeds.filter (fun f => f.1 = r)).map Prod.snd := by
  induction feeds generalizing queues with
  | nil => simp
  | cons f feeds ih =>
    rw [List.foldl_cons, ih]
    by_cases hr : f.1 = r
    · subst hr
      rw [Queues.push, Function.update_self, List.filter_cons_of_pos (by simp), List.map_cons,
        List.append_assoc, List.singleton_append]
    · rw [Queues.push, Function.update_of_ne (Ne.symm hr),
        List.filter_cons_of_neg (by simpa using hr)]

theorem queues_apply (feeds : Feeds) (r : Route) :
    feeds.queues r = (feeds.filter (fun f => f.1 = r)).map Prod.snd :=
  foldl_push feeds _ r

/-- To take ports off queues that hold the feeds for some routes is to draw from these feeds. -/
theorem take_eq_draw (h : ∀ r ∈ rs, rest r = feeds.queues r) :
    (rest.take rs).1 = feeds.draw rs := by
  induction rs generalizing feeds rest with
  | nil => rfl
  | cons r rs ih =>
    obtain ⟨hr, hrs⟩ := List.forall_mem_cons.mp h
    have hhead : (rest r).head? = (feeds.find? (fun f => f.1 = r)).map Prod.snd := by
      rw [hr, queues_apply, List.head?_map, List.head?_filter]
    have hrest : ∀ q ∈ rs, Function.update rest r (rest r).tail q =
        Feeds.queues (feeds.eraseP (fun f => f.1 = r)) q := by
      intro q hq
      rw [queues_apply, filter_eraseP]
      by_cases hqr : q = r
      · rw [hqr, Function.update_self, if_pos rfl, hr, queues_apply, List.map_tail]
      · rw [Function.update_of_ne hqr, if_neg hqr, hrs q hq, queues_apply]
    rw [draw_cons, ← hhead, ← ih hrest]
    rfl

end Feeds

namespace Graph
variable {g : Graph} {bs : List Bundle}

/-- The join trees for bundles, one after another: each takes the ports that feed it off the queues,
and the next one finds what is left. -/
def joinTrees (g : Graph) (queues : Queues) : List Bundle → Except Problem (List Batch)
  | [] => .ok []
  | b :: bs => do
    let root ← g.fanRoot b
    let (sources, left) := queues.take b.routes
    let tree ← Direction.inward.tree root sources
    .ok (tree :: (← g.joinTrees left bs))

/-- Bundles with no route in common do not meet in the queues. -/
theorem joinTrees_eq_mapM {feeds : Feeds} {rest : Queues}
    (hapart : bs.Pairwise fun a b => ∀ r ∈ b.routes, r ∉ a.routes)
    (h : ∀ b ∈ bs, ∀ r ∈ b.routes, rest r = feeds.queues r) :
    g.joinTrees rest bs = bs.mapM (g.joinTree feeds) := by
  induction bs generalizing rest with
  | nil => rfl
  | cons b bs ih =>
    obtain ⟨hb, hbs⟩ := List.forall_mem_cons.mp h
    obtain ⟨hfirst, hrest⟩ := List.pairwise_cons.mp hapart
    have hleft : ∀ a ∈ bs, ∀ r ∈ a.routes, (rest.take b.routes).2 r = feeds.queues r :=
      fun a ha r hr => (Queues.take_of_not_mem (hfirst a ha r hr)).trans (hbs a ha r hr)
    simp only [joinTrees, List.mapM_cons, joinTree, Feeds.take_eq_draw hb, ih hrest hleft,
      bind_assoc]
    rfl

/-- The inward bundles of a graph lead to different ports, and so have no route in common. -/
theorem pairwise_routes_bundles (g : Graph) (d : Direction) :
    (g.bundles d).Pairwise fun a b => ∀ r ∈ b.routes, r ∉ a.routes := by
  have hends : ∀ b ∈ g.bundles d, ∀ r ∈ b.routes, d.nearEnd r = b.anchor := fun b hb r hr => by
    rw [routes_of_mem_bundles hb] at hr
    exact of_decide_eq_true (List.mem_filter.mp hr).2
  have hanchors : (g.bundles d).Pairwise fun a b => a.anchor ≠ b.anchor :=
    List.pairwise_map.mp nodup_anchors
  refine hanchors.imp_of_mem fun ha hb hne r hrb hra => hne ?_
  rw [← hends _ ha r hra, ← hends _ hb r hrb]

/-- All trees of a graph, with one set of queues for all joins. -/
def queuedFanBatch (g : Graph) : Except Problem Batch := do
  let ins := g.bundles .inward
  let duplicates ← (g.bundles .outward).mapM (g.duplicateTree (ins.flatMap Bundle.routes))
  let joins ← g.joinTrees (Feeds.queues (duplicates.flatMap Withheld.feeds)) ins
  .ok (.concat (joins ++ duplicates.map Withheld.batch))

/-- That each join draws from all feeds and not from what those before it have left makes no
difference: no feed is for two of them. -/
theorem queuedFanBatch_eq (g : Graph) : g.queuedFanBatch = g.fanBatch := by
  have hjoins : ∀ feeds : Feeds, g.joinTrees feeds.queues (g.bundles .inward) =
      (g.bundles .inward).mapM (g.joinTree feeds) :=
    fun feeds => joinTrees_eq_mapM (g.pairwise_routes_bundles .inward) fun _ _ _ _ => rfl
  simp only [queuedFanBatch, fanBatch, hjoins]

end Graph
end PortNet
