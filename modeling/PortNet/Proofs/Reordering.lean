import Mathlib.Data.List.Perm.Basic
import PortNet.Proofs.WellFormed

namespace PortNet

namespace Table
variable {α : Type} {key : α → String} {t t' : Table α key}

/-- What stands under a key does not depend on the order of a table. -/
theorem find?_of_perm (h : t.toList.Perm t'.toList) (k : String) : t.find? k = t'.find? k := by
  apply Option.ext
  intro x
  rw [find?_eq_some_iff, find?_eq_some_iff, h.mem_iff]

theorem contains_of_perm (h : t.toList.Perm t'.toList) (k : String) :
    t.contains k = t'.contains k := by
  rw [Bool.eq_iff_iff, contains_iff, contains_iff]
  exact (h.map key).mem_iff

end Table

def PortMap.Reordered (m m' : PortMap) : Prop := m.toList.Perm m'.toList

/-- Two values that differ in nothing but the order in which ports are declared. -/
structure NodeValue.Reordered (v v' : NodeValue) : Prop where
  inputs : Option.Rel PortMap.Reordered v.inputs v'.inputs
  outputs : Option.Rel PortMap.Reordered v.outputs v'.outputs
  rest : v' = { v with inputs := v'.inputs, outputs := v'.outputs }

structure Node.Reordered (n n' : Node) : Prop where
  value : n.value.Reordered n'.value
  rest : n' = { n with value := n'.value }

/-- Two graphs with the same nodes, edges and other members, in whatever order the nodes, their ports
and the edges stand. -/
structure Graph.Reordered (g g' : Graph) : Prop where
  nodes : ∀ id, Option.Rel Node.Reordered (g.node? id) (g'.node? id)
  edges : g.edges.Perm g'.edges
  extras : g'.extras = g.extras

section Maps
variable {α : Type} {R : α → α → Prop} {x y : Option α}

theorem rel_refl (hrefl : ∀ a, R a a) (x : Option α) : Option.Rel R x x := by
  cases x with
  | none => exact .none
  | some a => exact .some (hrefl a)

theorem rel_symm (hsymm : ∀ a b, R a b → R b a) (h : Option.Rel R x y) : Option.Rel R y x := by
  cases h with
  | none => exact .none
  | some h => exact .some (hsymm _ _ h)

end Maps

theorem PortMap.Reordered.refl (m : PortMap) : m.Reordered m := List.Perm.refl _

namespace NodeValue.Reordered
variable {v v' : NodeValue}

theorem refl (v : NodeValue) : v.Reordered v where
  inputs := rel_refl PortMap.Reordered.refl _
  outputs := rel_refl PortMap.Reordered.refl _
  rest := rfl

theorem symm (h : v.Reordered v') : v'.Reordered v where
  inputs := rel_symm (fun _ _ => List.Perm.symm) h.inputs
  outputs := rel_symm (fun _ _ => List.Perm.symm) h.outputs
  rest := by rw [h.rest]

theorem perm_ports (h : v.Reordered v') (side : Side) :
    (v.ports side).toList.Perm (v'.ports side).toList := by
  have hmap : ∀ {m m' : Option PortMap}, Option.Rel PortMap.Reordered m m' →
      (m.getD Table.empty).toList.Perm (m'.getD Table.empty).toList := by
    intro m m' h
    cases h with
    | none => exact List.Perm.refl _
    | some h => exact h
  cases side with
  | input => exact hmap h.inputs
  | output => exact hmap h.outputs

theorem get?_eq (h : v.Reordered v') (side : Side) (name : PortName) :
    Dictionary.get? (v.ports side) name = Dictionary.get? (v'.ports side) name := by
  rw [Dictionary.get?, Table.find?_of_perm (h.perm_ports side), Dictionary.get?]

theorem portType?_eq (h : v.Reordered v') (name : PortName) (side : Side) :
    v.portType? name side = v'.portType? name side := by
  rw [portType?, h.get?_eq, h.get?_eq, portType?]

theorem declares_eq (h : v.Reordered v') (name : PortName) :
    v.declares name = v'.declares name := by
  rw [declares, Table.contains_of_perm (h.perm_ports .input),
    Table.contains_of_perm (h.perm_ports .output), declares]

end NodeValue.Reordered

namespace Node.Reordered
variable {n n' : Node}

theorem refl (n : Node) : n.Reordered n := ⟨.refl _, rfl⟩

theorem symm (h : n.Reordered n') : n'.Reordered n := ⟨h.value.symm, by rw [h.rest]⟩

theorem id_eq (h : n.Reordered n') : n'.id = n.id := by rw [h.rest]

theorem parent?_eq (h : n.Reordered n') : n'.parent? = n.parent? := by
  rw [h.rest]
  rfl

theorem kind_eq (h : n.Reordered n') : n'.kind = n.kind := by rw [h.rest]

end Node.Reordered

namespace Graph.Reordered
variable {g g' : Graph} {id : NodeId} {n : Node} {p : Port}

theorem symm (h : g.Reordered g') : g'.Reordered g :=
  ⟨fun id => rel_symm (fun _ _ => .symm) (h.nodes id), h.edges.symm, h.extras.symm⟩

/-- To compare two graphs node by node. -/
theorem of_mem (hnodes : ∀ n ∈ g.nodes.toList, ∃ n' ∈ g'.nodes.toList, n.Reordered n')
    (hback : ∀ n' ∈ g'.nodes.toList, ∃ n ∈ g.nodes.toList, n.Reordered n')
    (hedges : g.edges.Perm g'.edges) (hextras : g'.extras = g.extras) : g.Reordered g' where
  nodes id := by
    cases hfound : g.node? id with
    | some n =>
      obtain ⟨hn, rfl⟩ := node?_eq_some_iff.mp hfound
      obtain ⟨n', hn', hrel⟩ := hnodes n hn
      rw [node?_eq_some_iff.mpr ⟨hn', hrel.id_eq⟩]
      exact .some hrel
    | none =>
      cases hfound' : g'.node? id with
      | none => exact .none
      | some n' =>
        obtain ⟨hn', rfl⟩ := node?_eq_some_iff.mp hfound'
        obtain ⟨n, hn, hrel⟩ := hback n' hn'
        rw [hrel.id_eq, node?_of_mem hn] at hfound
        cases hfound
  edges := hedges
  extras := hextras

theorem exists_node? (h : g.Reordered g') (hn : g.node? id = some n) :
    ∃ n', g'.node? id = some n' ∧ n.Reordered n' := by
  have hrel := h.nodes id
  rw [hn] at hrel
  generalize hn' : g'.node? id = found at hrel
  cases hrel with
  | some hrel => exact ⟨_, rfl, hrel⟩

theorem exists_mem (h : g.Reordered g') (hn : n ∈ g.nodes.toList) :
    ∃ n' ∈ g'.nodes.toList, n.Reordered n' := by
  obtain ⟨n', hn', hrel⟩ := h.exists_node? (node?_of_mem hn)
  exact ⟨n', (node?_eq_some_iff.mp hn').1, hrel⟩

/-- What is read off a node in the same way from all its reorderings is the same in both graphs. -/
theorem bind_node?_eq {β : Type} (h : g.Reordered g') (id : NodeId) {read : Node → Option β}
    (hread : ∀ n n', n.Reordered n' → read n' = read n) :
    (g'.node? id).bind read = (g.node? id).bind read := by
  have hrel := h.nodes id
  generalize g.node? id = found at hrel
  generalize g'.node? id = found' at hrel
  cases hrel with
  | none => rfl
  | some hrel => exact hread _ _ hrel

theorem contains_eq (h : g.Reordered g') (id : NodeId) : g'.contains id = g.contains id := by
  rw [Bool.eq_iff_iff, contains_iff_node?, contains_iff_node?]
  constructor
  · intro hall
    obtain ⟨n, hn⟩ := hall
    obtain ⟨n', hn', _⟩ := h.symm.exists_node? hn
    exact ⟨n', hn'⟩
  · intro hall
    obtain ⟨n, hn⟩ := hall
    obtain ⟨n', hn', _⟩ := h.exists_node? hn
    exact ⟨n', hn'⟩

theorem parent?_eq (h : g.Reordered g') (id : NodeId) : g'.parent? id = g.parent? id :=
  h.bind_node?_eq id fun _ _ => Node.Reordered.parent?_eq

theorem portType?_eq (h : g.Reordered g') (p : Port) (side : Side) :
    g'.portType? p side = g.portType? p side :=
  h.bind_node?_eq p.node fun _ _ hn => (hn.value.portType?_eq p.name side).symm

theorem perm_ids (h : g.Reordered g') : g.ids.Perm g'.ids := by
  refine (List.perm_ext_iff_of_nodup g.nodes.distinct g'.nodes.distinct).mpr fun id => ?_
  have hkeys := h.contains_eq id
  rw [contains, contains, Bool.eq_iff_iff, Table.contains_iff, Table.contains_iff] at hkeys
  exact hkeys.symm

theorem length_nodes (h : g.Reordered g') : g'.nodes.toList.length = g.nodes.toList.length := by
  have hlength := h.perm_ids.length_eq
  rw [ids, ids, List.length_map, List.length_map] at hlength
  exact hlength.symm

theorem climbs_eq (h : g.Reordered g') (steps : Nat) (start : Option NodeId) :
    g'.climbs steps start = g.climbs steps start := by
  induction steps generalizing start with
  | zero => cases start <;> rfl
  | succ steps ih =>
    cases start with
    | none => rfl
    | some id => rw [climbs, climbs, h.parent?_eq, ih]

theorem declares (h : g.Reordered g') (hp : g.Declares p) : g'.Declares p := by
  obtain ⟨n, hn, hd⟩ := hp
  obtain ⟨n', hn', hrel⟩ := h.exists_node? hn
  exact ⟨n', hn', hrel.value.declares_eq p.name ▸ hd⟩

theorem wellFormed (h : g.Reordered g') (hg : g.WellFormed) : g'.WellFormed where
  ends e he :=
    have hends := hg.ends e (h.edges.mem_iff.mpr he)
    ⟨h.declares hends.1, h.declares hends.2⟩
  parents n hn p hp := by
    obtain ⟨m, hm, hrel⟩ := h.symm.exists_mem hn
    rw [h.contains_eq]
    exact hg.parents m hm p (hrel.parent?_eq.trans hp)
  forest n hn := by
    obtain ⟨m, hm, hrel⟩ := h.symm.exists_mem hn
    rw [climbsForever, h.length_nodes, h.parent?_eq, h.climbs_eq, ← hrel.id_eq]
    exact hg.forest m hm

theorem accepts_eq (h : g.Reordered g') :
    Validator.structural.accepts g' = Validator.structural.accepts g := by
  rw [Bool.eq_iff_iff, accepts_iff, accepts_iff]
  exact ⟨h.symm.wellFormed, h.wellFormed⟩

end Graph.Reordered

/-- Two revisions that cut the same edges and add the same batch, in whatever order, preserve that
graphs are reorderings of each other. -/
theorem Revision.reordered {g g' g₁ g₁' : Graph} {keep : Edge → Bool} {batch batch' : Batch}
    (h : Revision g g₁ keep batch) (h' : Revision g' g₁' keep batch') (hr : g.Reordered g')
    (hnodes : batch.nodes.Perm batch'.nodes) (hedges : batch.edges.Perm batch'.edges) :
    g₁.Reordered g₁' where
  nodes id := by
    cases hc : g.contains id with
    | true =>
      rw [h.node?_of_contains hc, h'.node?_of_contains ((hr.contains_eq id).trans hc)]
      exact hr.nodes id
    | false =>
      have hnew : ∀ {g g₁ : Graph} {batch : Batch}, Revision g g₁ keep batch →
          g.contains id = false → ∀ n, g₁.node? id = some n ↔ n ∈ batch.nodes ∧ n.id = id := by
        intro g g₁ batch h hc n
        rw [Graph.node?_eq_some_iff, h.mem_nodes_iff, or_and_right, or_iff_right]
        intro hold
        rw [Graph.contains_iff.mpr ⟨n, hold⟩] at hc
        cases hc
      have hsame : g₁.node? id = g₁'.node? id := by
        apply Option.ext
        intro n
        rw [hnew h hc, hnew h' ((hr.contains_eq id).trans hc), hnodes.mem_iff]
      rw [hsame]
      exact rel_refl .refl _
  edges := by
    rw [h.edges, h'.edges]
    exact (hr.edges.filter keep).append hedges
  extras := by rw [h.extras, h'.extras, hr.extras]

end PortNet
