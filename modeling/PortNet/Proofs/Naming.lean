import Mathlib.Data.List.Nodup
import PortNet.Proofs.WellFormed
import PortNet.Synthesis

namespace PortNet

/-- A name without the two characters that the ids of new nodes are put together with. -/
def PlainName (name : String) : Prop := '_' ∉ name.toList ∧ '@' ∉ name.toList

instance (name : String) : Decidable (PlainName name) := inferInstanceAs (Decidable (_ ∧ _))

def Port.Plain (p : Port) : Prop := PlainName p.node ∧ PlainName p.name

namespace Graph

/-- All ids of nodes and all names of ports are plain; they may be empty. -/
def PlainNames (g : Graph) : Prop := ∀ n ∈ g.nodes.toList, PlainName n.id ∧
  ∀ name ∈ n.inputs.keys ++ n.outputs.keys, PlainName name

instance (g : Graph) : Decidable g.PlainNames :=
  inferInstanceAs (Decidable (∀ n ∈ g.nodes.toList, _ ∧ _))

theorem PlainNames.plain_of_declares {g : Graph} {p : Port} (h : g.PlainNames)
    (hp : g.Declares p) : p.Plain := by
  obtain ⟨n, hn, hd⟩ := hp
  obtain ⟨hm, hid⟩ := node?_eq_some_iff.mp hn
  obtain ⟨hnode, hports⟩ := h n hm
  refine ⟨hid ▸ hnode, hports p.name ?_⟩
  rw [List.mem_append, Node.inputs, Node.outputs, ← Table.contains_iff, ← Table.contains_iff]
  exact Bool.or_eq_true_iff.mp hd

end Graph

namespace Synthesis
variable {p q : Port} {r r' : Route} {id : NodeId}

/-- What stands between the underscores of an id. -/
def parts (id : NodeId) : List (List Char) := id.toList.splitOn '_'

/-- The third part of an id. Among plain names it tells what the node of that id is for. -/
def mark (id : NodeId) : Option (List Char) := (parts id)[2]?

/-- The word in the ids of the two-way nodes of one direction. -/
def word : Direction → String
  | .outward => "DUPLICATE"
  | .inward => "JOIN"

/-- What all ids of the tree over a port begin with. -/
def heading (d : Direction) (p : Port) : List Char :=
  p.node.toList ++ '_' :: (p.name.toList ++ '_' :: ((word d).toList ++ ['_']))

theorem heading_prefix_twoWayId (d : Direction) (p : Port) (first last : Nat) :
    heading d p <+: (twoWayId d p first last).toList := by
  have hid : (twoWayId d p first last).toList =
      heading d p ++ ((Nat.repr first).toList ++ '_' :: (Nat.repr last).toList) := by
    cases d <;> simp [heading, word, twoWayId]
  rw [hid]
  exact List.prefix_append _ _

theorem length_node_lt_heading (d : Direction) (p : Port) :
    p.node.toList.length < (heading d p).length := by
  simp [heading]

theorem parts_of_plain (h : PlainName id) : parts id = [id.toList] :=
  List.splitOn_eq_singleton h.1

/-- An id under the heading of a plain port gives that port and the direction away. -/
theorem parts_of_heading {d : Direction} (hp : p.Plain) (h : heading d p <+: id.toList) :
    ∃ rest, parts id = p.node.toList :: p.name.toList :: (word d).toList :: rest := by
  obtain ⟨rest, hrest⟩ := h
  -- What follows the heading, a range and perhaps a whole path of branches, is left as it is.
  refine ⟨rest.splitOn '_', ?_⟩
  have hword : '_' ∉ (word d).toList := by cases d <;> decide
  have hsplit : id.toList = p.node.toList ++ '_' :: (p.name.toList ++ '_' ::
      ((word d).toList ++ '_' :: rest)) := by
    rw [← hrest]
    simp [heading]
  rw [parts, hsplit, List.splitOn_append_cons_self_of_not_mem hp.1.1,
    List.splitOn_append_cons_self_of_not_mem hp.2.1, List.splitOn_append_cons_self_of_not_mem hword]

theorem parts_sinkId (h : p.Plain) :
    parts (sinkId p) = [p.node.toList, "consume".toList, "dummy".toList, p.name.toList] := by
  have hsplit : (sinkId p).toList = p.node.toList ++ '_' :: ("consume".toList ++ '_' ::
      ("dummy".toList ++ '_' :: p.name.toList)) := by
    simp [sinkId]
  rw [parts, hsplit, List.splitOn_append_cons_self_of_not_mem h.1.1,
    List.splitOn_append_cons_self_of_not_mem (by decide),
    List.splitOn_append_cons_self_of_not_mem (by decide), List.splitOn_eq_singleton h.2.1]

/-- A port as it stands in the id of a bridge. -/
def address (p : Port) : List Char := p.node.toList ++ '@' :: p.name.toList

theorem not_mem_address (h : p.Plain) : '_' ∉ address p := by
  simp [address, h.1.1, h.2.1]

theorem parts_bridgeId (hs : r.source.Plain) (ht : r.target.Plain) :
    parts (bridgeId r) = ["id".toList, address r.source, "to".toList, address r.target] := by
  have hsplit : (bridgeId r).toList = "id".toList ++ '_' :: (address r.source ++ '_' ::
      ("to".toList ++ '_' :: address r.target)) := by
    simp [bridgeId, edgeName, address]
  rw [parts, hsplit, List.splitOn_append_cons_self_of_not_mem (by decide),
    List.splitOn_append_cons_self_of_not_mem (not_mem_address hs),
    List.splitOn_append_cons_self_of_not_mem (by decide),
    List.splitOn_eq_singleton (not_mem_address ht)]

theorem address_inj (hp : p.Plain) (hq : q.Plain) (h : address p = address q) : p = q := by
  have hparts := congrArg (List.splitOn '@') h
  rw [address, address, List.splitOn_append_cons_self_of_not_mem hp.1.2,
    List.splitOn_append_cons_self_of_not_mem hq.1.2, List.splitOn_eq_singleton hp.2.2,
    List.splitOn_eq_singleton hq.2.2] at hparts
  simp only [List.cons.injEq, and_true, String.toList_inj] at hparts
  obtain ⟨hnode, hname⟩ := hparts
  cases p
  cases q
  simp_all

/-- Two trees whose ids have a common member are at one port, if the ports are plain. -/
theorem port_eq_of_heading {d : Direction} (hp : p.Plain) (hq : q.Plain)
    (hpid : heading d p <+: id.toList) (hqid : heading d q <+: id.toList) : p = q := by
  obtain ⟨_, hparts⟩ := parts_of_heading hp hpid
  obtain ⟨_, hparts'⟩ := parts_of_heading hq hqid
  rw [hparts] at hparts'
  obtain ⟨hnode, htail⟩ := List.cons.inj hparts'
  obtain ⟨hname, _⟩ := List.cons.inj htail
  cases p
  cases q
  simp_all [String.toList_inj]

theorem sinkId_inj (hp : p.Plain) (hq : q.Plain) (h : sinkId p = sinkId q) : p = q := by
  have hparts := congrArg parts h
  rw [parts_sinkId hp, parts_sinkId hq] at hparts
  simp only [List.cons.injEq, and_true, true_and, String.toList_inj] at hparts
  cases p
  cases q
  simp_all

theorem bridgeId_inj (hs : r.source.Plain) (ht : r.target.Plain) (hs' : r'.source.Plain)
    (ht' : r'.target.Plain) (h : bridgeId r = bridgeId r') : r = r' := by
  have hparts := congrArg parts h
  rw [parts_bridgeId hs ht, parts_bridgeId hs' ht'] at hparts
  simp only [List.cons.injEq, and_true, true_and] at hparts
  obtain ⟨hsource, htarget⟩ := hparts
  cases r
  cases r'
  simp only [Route.mk.injEq]
  exact ⟨address_inj hs hs' hsource, address_inj ht ht' htarget⟩

end Synthesis
end PortNet
