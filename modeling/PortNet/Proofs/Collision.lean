import PortNet.Proofs.Naming

namespace PortNet

/-- A text that ends in a mark and a rest without it can be taken apart from its end, also against a
second text with another mark. -/
theorem last_mark_inj {xs xs' ys ys' : List Char} {a b : Char} (h : xs ++ a :: ys = xs' ++ b :: ys')
    (hb : b ∉ ys) (ha : a ∉ ys') : xs = xs' ∧ a = b ∧ ys = ys' := by
  rcases List.append_eq_append_iff.mp h with ⟨between, rfl, hrest⟩ | ⟨between, rfl, hrest⟩
  · cases between with
    | nil =>
      obtain ⟨rfl, rfl⟩ := List.cons.inj hrest
      exact ⟨(List.append_nil _).symm, rfl, rfl⟩
    | cons c between =>
      obtain ⟨_, rfl⟩ := List.cons.inj hrest
      exact absurd (List.mem_append_right _ List.mem_cons_self) hb
  · cases between with
    | nil =>
      obtain ⟨rfl, rfl⟩ := List.cons.inj hrest
      exact ⟨List.append_nil _, rfl, rfl⟩
    | cons c between =>
      obtain ⟨_, rfl⟩ := List.cons.inj hrest
      exact absurd (List.mem_append_right _ List.mem_cons_self) ha

namespace Synthesis

/-- What a new node is for: some leaves of the fan at a port, the self-loops of a node between two
of its ports, or a port that nothing consumes. -/
inductive Purpose where
  | twoWay (direction : Direction) (root : Port) (first last : Nat)
  | bridge (node : NodeId) (source target : PortName)
  | sink (port : Port)
deriving DecidableEq

namespace Purpose

def id : Purpose → NodeId
  | twoWay direction root first last => twoWayId direction root first last
  | bridge node source target => bridgeId ⟨⟨node, source⟩, ⟨node, target⟩⟩
  | sink port => sinkId port

/-- The names of the ports that a node is made for are plain; the id of their node need not be. -/
def Plain : Purpose → Prop
  | twoWay _ root _ _ => PlainName root.name
  | bridge _ source target => PlainName source ∧ PlainName target
  | sink port => PlainName port.name

instance : DecidablePred Plain
  | twoWay _ root _ _ => inferInstanceAs (Decidable (PlainName root.name))
  | bridge _ source target => inferInstanceAs (Decidable (PlainName source ∧ PlainName target))
  | sink port => inferInstanceAs (Decidable (PlainName port.name))

end Purpose

variable {d d' : Direction} {p q : Port} {first last first' last' : Nat}

theorem not_mem_repr {c : Char} (hc : c.isDigit = false) (n : Nat) : c ∉ (Nat.repr n).toList := by
  intro hm
  rw [Nat.toList_repr] at hm
  rw [Nat.isDigit_of_mem_toDigits (by decide) (by decide) hm] at hc
  cases hc

theorem not_mem_word (d : Direction) : '_' ∉ (word d).toList := by cases d <;> decide

theorem repr_inj {m n : Nat} (h : (Nat.repr m).toList = (Nat.repr n).toList) : m = n := by
  rw [Nat.toList_repr, Nat.toList_repr] at h
  rw [← Nat.ofDigitChars_ten_toDigits (n := m), h, Nat.ofDigitChars_ten_toDigits]

/-- The joined name of a port, with which the ids of its tree begin. -/
def stem (p : Port) : String := p.node ++ "_" ++ p.name

theorem toList_twoWayId : (twoWayId d p first last).toList =
    (((stem p).toList ++ '_' :: (word d).toList) ++ '_' :: (Nat.repr first).toList) ++
      '_' :: (Nat.repr last).toList := by
  cases d <;> simp [twoWayId, stem, word]

theorem toList_sinkId : (sinkId p).toList =
    ((p.node.toList ++ '_' :: "consume".toList) ++ '_' :: "dummy".toList) ++
      '_' :: p.name.toList := by
  simp [sinkId]

/-- The part of the id of a bridge before the second port. -/
def span (node : NodeId) (source : PortName) : List Char :=
  node.toList ++ '@' :: (source.toList ++ ("_to_".toList ++ node.toList))

theorem toList_bridgeId (node : NodeId) (source target : PortName) :
    (bridgeId ⟨⟨node, source⟩, ⟨node, target⟩⟩).toList =
      ("id_".toList ++ span node source) ++ '@' :: target.toList := by
  simp [bridgeId, edgeName, span]

/-- The ids of two-way nodes agree exactly if direction and range do, and the joined names of the
ports. -/
theorem twoWayId_eq_iff : twoWayId d p first last = twoWayId d' q first' last' ↔
    d = d' ∧ first = first' ∧ last = last' ∧ stem p = stem q := by
  constructor
  · intro h
    have hids := congrArg String.toList h
    rw [toList_twoWayId, toList_twoWayId] at hids
    have hdigits := not_mem_repr (c := '_') (by decide)
    obtain ⟨hids, _, hlast⟩ := last_mark_inj hids (hdigits _) (hdigits _)
    obtain ⟨hids, _, hfirst⟩ := last_mark_inj hids (hdigits _) (hdigits _)
    obtain ⟨hstem, _, hwords⟩ := last_mark_inj hids (not_mem_word _) (not_mem_word _)
    have hd : d = d' := by
      revert hwords
      cases d <;> cases d' <;> decide
    exact ⟨hd, repr_inj hfirst, repr_inj hlast, String.toList_inj.mp hstem⟩
  · intro hall
    obtain ⟨rfl, rfl, rfl, hstem⟩ := hall
    rw [← String.toList_inj, toList_twoWayId, toList_twoWayId, hstem]

theorem port_eq {p q : Port} (hnode : p.node.toList = q.node.toList)
    (hname : p.name.toList = q.name.toList) : p = q := by
  cases p
  cases q
  simp_all [String.toList_inj]

theorem toList_stem : (stem p).toList = p.node.toList ++ '_' :: p.name.toList := by
  simp [stem]

/-- An underscore before or behind the one that joins a port's name can be taken for it, so that
another port has the same ids for two-way nodes. Without one no other port has them. -/
theorem exists_twoWayId_eq_iff :
    (∃ q ≠ p, ∀ d first last, twoWayId d q first last = twoWayId d p first last) ↔
      '_' ∈ p.node.toList ∨ '_' ∈ p.name.toList := by
  have hstems : ∀ q, (∀ d first last, twoWayId d q first last = twoWayId d p first last) ↔
      (stem q).toList = p.node.toList ++ '_' :: p.name.toList := by
    intro q
    rw [← toList_stem, String.toList_inj]
    exact ⟨fun h => (twoWayId_eq_iff.mp (h .outward 0 0)).2.2.2,
      fun h d first last => twoWayId_eq_iff.mpr ⟨rfl, rfl, rfl, h⟩⟩
  simp only [hstems, toList_stem]
  constructor
  · intro hall
    obtain ⟨q, hne, h⟩ := hall
    by_contra hno
    rw [not_or] at hno
    obtain ⟨hnode, _, hname⟩ := (List.append_cons_inj_of_notMem hno.1 hno.2).mp h.symm
    exact hne (port_eq hnode.symm hname.symm)
  · rintro (hm | hm)
    · obtain ⟨front, back, hnode⟩ := List.append_of_mem hm
      refine ⟨⟨String.ofList front, String.ofList (back ++ '_' :: p.name.toList)⟩, ?_, ?_⟩
      · intro hsame
        have hlength := congrArg (fun q => q.node.toList.length) hsame
        simp only [String.toList_ofList, hnode, List.length_append, List.length_cons] at hlength
        omega
      · simp [hnode]
    · obtain ⟨front, back, hname⟩ := List.append_of_mem hm
      refine ⟨⟨String.ofList (p.node.toList ++ '_' :: front), String.ofList back⟩, ?_, ?_⟩
      · intro hsame
        have hlength := congrArg (fun q => q.name.toList.length) hsame
        simp only [String.toList_ofList, hname, List.length_append, List.length_cons] at hlength
        omega
      · simp [hname]

/-- A joined name gives the port away if the names of ports are plain, whatever the ids of nodes
are. -/
theorem stem_inj (hp : PlainName p.name) (hq : PlainName q.name) (h : stem p = stem q) : p = q := by
  have hstem := congrArg String.toList h
  rw [toList_stem, toList_stem] at hstem
  obtain ⟨hnode, _, hname⟩ := last_mark_inj hstem hp.1 hq.1
  exact port_eq hnode hname

theorem sinkId_inj_of_names (hp : PlainName p.name) (hq : PlainName q.name)
    (h : sinkId p = sinkId q) : p = q := by
  have hids := congrArg String.toList h
  rw [toList_sinkId, toList_sinkId] at hids
  obtain ⟨hids, _, hname⟩ := last_mark_inj hids hp.1 hq.1
  have hnode := List.append_cancel_right (List.append_cancel_right hids)
  exact port_eq hnode hname

/-- Of two readings of a span, none has the longer node: the name of its first port would contain
the mark that stands behind the longer node, since both copies of the node would grow. -/
theorem not_longer_of_span {node more name name' between : List Char} (hname : '@' ∉ name) :
    name ++ (between ++ node) ≠
      more ++ '@' :: (name' ++ (between ++ (node ++ '@' :: more))) := by
  intro h
  have hlength := congrArg List.length h
  simp only [List.length_append, List.length_cons] at hlength
  rcases List.append_eq_append_iff.mp h with ⟨rest, rfl, _⟩ | ⟨rest, rfl, hrest⟩
  · rw [List.length_append] at hlength
    omega
  · cases rest with
    | nil =>
      rw [List.append_nil] at hlength
      omega
    | cons c rest =>
      obtain ⟨rfl, _⟩ := List.cons.inj hrest
      exact hname (List.mem_append_right _ List.mem_cons_self)

theorem span_inj {m n : NodeId} {a b : PortName} (ha : '@' ∉ a.toList) (hb : '@' ∉ b.toList)
    (h : span m a = span n b) : m = n ∧ a = b := by
  have hsame : m = n := by
    rcases List.append_eq_append_iff.mp h with ⟨more, hn, hrest⟩ | ⟨more, hm, hrest⟩
    · cases more with
      | nil => exact String.toList_inj.mp (by simpa using hn.symm)
      | cons c more =>
        obtain ⟨rfl, htail⟩ := List.cons.inj hrest
        rw [hn] at htail
        exact absurd htail (not_longer_of_span ha)
    · cases more with
      | nil => exact String.toList_inj.mp (by simpa using hm)
      | cons c more =>
        obtain ⟨rfl, htail⟩ := List.cons.inj hrest
        rw [hm] at htail
        exact absurd htail (not_longer_of_span hb)
  subst hsame
  have hports := (List.cons.inj (List.append_cancel_left h)).2
  exact ⟨rfl, String.toList_inj.mp (List.append_cancel_right hports)⟩

theorem bridgeId_inj_of_names {m n : NodeId} {a b a' b' : PortName} (ha : PlainName a)
    (hb : PlainName b) (ha' : PlainName a') (hb' : PlainName b')
    (h : bridgeId ⟨⟨m, a⟩, ⟨m, b⟩⟩ = bridgeId ⟨⟨n, a'⟩, ⟨n, b'⟩⟩) : m = n ∧ a = a' ∧ b = b' := by
  have hids := congrArg String.toList h
  rw [toList_bridgeId, toList_bridgeId] at hids
  obtain ⟨hids, _, htarget⟩ := last_mark_inj hids hb.2 hb'.2
  obtain ⟨hnode, hsource⟩ := span_inj ha.2 ha'.2 (List.append_cancel_left hids)
  exact ⟨hnode, hsource, String.toList_inj.mp htarget⟩

theorem twoWayId_ne_sinkId (hq : PlainName q.name) : twoWayId d p first last ≠ sinkId q := by
  intro h
  have hids := congrArg String.toList h
  rw [toList_twoWayId, toList_sinkId] at hids
  obtain ⟨hids, _, _⟩ := last_mark_inj hids (not_mem_repr (by decide) _) hq.1
  obtain ⟨_, _, hdummy⟩ := last_mark_inj hids (not_mem_repr (by decide) _) (by decide)
  exact not_mem_repr (c := 'd') (by decide) first (hdummy ▸ by decide)

/-- Behind the last underscore the id of a bridge goes on to the name of a port with its mark. -/
theorem ne_toList_bridgeId {xs ys : List Char} {n : NodeId} {a b : PortName} (hys : '@' ∉ ys)
    (hb : PlainName b) : xs ++ '_' :: ys ≠ (bridgeId ⟨⟨n, a⟩, ⟨n, b⟩⟩).toList := by
  intro h
  rw [toList_bridgeId] at h
  obtain ⟨_, hmark, _⟩ := last_mark_inj h hys hb.1
  exact absurd hmark (by decide)

theorem twoWayId_ne_bridgeId {n : NodeId} {a b : PortName} (hb : PlainName b) :
    twoWayId d p first last ≠ bridgeId ⟨⟨n, a⟩, ⟨n, b⟩⟩ := by
  intro h
  have hids := congrArg String.toList h
  rw [toList_twoWayId] at hids
  exact ne_toList_bridgeId (not_mem_repr (by decide) last) hb hids

theorem sinkId_ne_bridgeId {n : NodeId} {a b : PortName} (hp : PlainName p.name)
    (hb : PlainName b) : sinkId p ≠ bridgeId ⟨⟨n, a⟩, ⟨n, b⟩⟩ := by
  intro h
  have hids := congrArg String.toList h
  rw [toList_sinkId] at hids
  exact ne_toList_bridgeId hp.2 hb hids

namespace Purpose

variable {k k' : Purpose}

/-- Different purposes have different ids if the names of their ports are plain. The ids of nodes
are arbitrary, and so may themselves be ids that were given to new nodes. -/
theorem id_inj (hk : k.Plain) (hk' : k'.Plain) (h : k.id = k'.id) : k = k' := by
  cases k with
  | twoWay d p first last =>
    cases k' with
    | twoWay d' q first' last' =>
      obtain ⟨rfl, rfl, rfl, hstem⟩ := twoWayId_eq_iff.mp h
      rw [stem_inj hk hk' hstem]
    | bridge n a b => exact absurd h (twoWayId_ne_bridgeId hk'.2)
    | sink q => exact absurd h (twoWayId_ne_sinkId hk')
  | bridge n a b =>
    cases k' with
    | twoWay d q first last => exact absurd h.symm (twoWayId_ne_bridgeId hk.2)
    | bridge n' a' b' =>
      obtain ⟨rfl, rfl, rfl⟩ := bridgeId_inj_of_names hk.1 hk.2 hk'.1 hk'.2 h
      rfl
    | sink q => exact absurd h.symm (sinkId_ne_bridgeId hk' hk.2)
  | sink p =>
    cases k' with
    | twoWay d q first last => exact absurd h.symm (twoWayId_ne_sinkId hk)
    | bridge n a b => exact absurd h (sinkId_ne_bridgeId hk hk'.2)
    | sink q => rw [sinkId_inj_of_names hk hk' h]

end Purpose

/-- What the ids of new nodes tell, whatever the ids of nodes and the names of ports are made of.
Those of two-way nodes tell direction and range, and the joined name of the port; another port has
the same ids exactly if there is an underscore on one side of the join. Any id tells its whole
purpose once it is known that the names of ports are plain. -/
theorem id_tells_purpose (k k' : Purpose) (d d' : Direction) (p q : Port)
    (first last first' last' : Nat) :
    (twoWayId d p first last = twoWayId d' q first' last' ↔
      d = d' ∧ first = first' ∧ last = last' ∧ stem p = stem q) ∧
    ((∃ q ≠ p, ∀ d first last, twoWayId d q first last = twoWayId d p first last) ↔
      '_' ∈ p.node.toList ∨ '_' ∈ p.name.toList) ∧
    (k.Plain → k'.Plain → (k.id = k'.id ↔ k = k')) :=
  ⟨twoWayId_eq_iff, exists_twoWayId_eq_iff,
    fun hk hk' => ⟨Purpose.id_inj hk hk', fun h => congrArg Purpose.id h⟩⟩

/-- At a branch of a two-way node, a smaller tree and a sink have different ids, and so have the two
directions over one range. -/
theorem id_tells_purpose_branch :
    (Purpose.twoWay .outward ⟨"a_b_DUPLICATE_0_2", "d1"⟩ 0 1).id ≠
      (Purpose.sink ⟨"a_b_DUPLICATE_0_2", "d1"⟩).id ∧
    twoWayId .outward ⟨"a_b", "c"⟩ 0 1 ≠ twoWayId .inward ⟨"a", "b_c"⟩ 0 1 := by
  obtain ⟨htwoWay, _, hall⟩ := id_tells_purpose (.twoWay .outward ⟨"a_b_DUPLICATE_0_2", "d1"⟩ 0 1)
    (.sink ⟨"a_b_DUPLICATE_0_2", "d1"⟩) .outward .inward ⟨"a_b", "c"⟩ ⟨"a", "b_c"⟩ 0 1 0 1
  refine ⟨fun h => ?_, fun h => ?_⟩
  · cases (hall (by decide) (by decide)).mp h
  · cases (htwoWay.mp h).1

/-- Purposes that share an id, in one kind and across kinds; only duplicates and joins never meet.
-/
def clashes : List (Purpose × Purpose) :=
  [(.twoWay .outward ⟨"a_b", "c"⟩ 0 1, .twoWay .outward ⟨"a", "b_c"⟩ 0 1),
    (.twoWay .inward ⟨"a_b", "c"⟩ 0 1, .twoWay .inward ⟨"a", "b_c"⟩ 0 1),
    (.bridge "x@y" "a" "a", .bridge "x" "y@a" "y@a"),
    (.sink ⟨"a_consume_dummy_b", "c"⟩, .sink ⟨"a", "b_consume_dummy_c"⟩),
    (.twoWay .outward ⟨"a", "consume_dummy_b"⟩ 0 1, .sink ⟨"a", "b_DUPLICATE_0_1"⟩),
    (.twoWay .inward ⟨"id", "x@a_to_x@b"⟩ 0 1, .bridge "x" "a" "b_JOIN_0_1"),
    (.sink ⟨"id_x@a_to_x@b", "c"⟩, .bridge "x" "a" "b_consume_dummy_c")]

theorem clashes_share_ids :
    (clashes.all fun pair => pair.1 ≠ pair.2 ∧ pair.1.id = pair.2.id) = true := by
  decide

end Synthesis
end PortNet
