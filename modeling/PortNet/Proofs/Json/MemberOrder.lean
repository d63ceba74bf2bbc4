import Mathlib.Data.List.Perm.Basic
import PortNet.Proofs.Json.Reading

namespace PortNet.Json

/-- A value in which no object has a key twice. -/
inductive Proper : Json → Prop
  | null : Proper .null
  | bool {value : Bool} : Proper (.bool value)
  | num {n : Number} : Proper (.num n)
  | str {value : String} : Proper (.str value)
  | arr {items : List Json} : (∀ x ∈ items, Proper x) → Proper (.arr items)
  | obj {members : List (String × Json)} : (members.map Prod.fst).Nodup →
      (∀ m ∈ members, Proper m.2) → Proper (.obj members)

@[simp] theorem proper_arr {items : List Json} :
    Proper (.arr items) ↔ ∀ x ∈ items, x.Proper :=
  ⟨fun h => by cases h with | arr hitems => exact hitems, .arr⟩

@[simp] theorem proper_obj {members : List (String × Json)} :
    Proper (.obj members) ↔ (members.map Prod.fst).Nodup ∧ ∀ m ∈ members, m.2.Proper :=
  ⟨fun h => by cases h with | obj hkeys hmembers => exact ⟨hkeys, hmembers⟩, fun h => .obj h.1 h.2⟩

attribute [simp] Proper.null Proper.bool Proper.num Proper.str

theorem Fits.proper {depth : Nat} {j : Json} (h : Fits depth j) : j.Proper := by
  induction h with
  | null => exact .null
  | bool => exact .bool
  | num => exact .num
  | str => exact .str
  | arr _ ih => exact .arr ih
  | obj hkeys _ ih => exact .obj hkeys ih

/-- The value under a key of an object. -/
def member? : Json → String → Option Json
  | .obj members, name => members.lookup name
  | _, _ => none

/-- The keys of an object in their order. -/
def keys : Json → List String
  | .obj members => members.map Prod.fst
  | _ => []

section Lookup
variable {ms ns : List (String × Json)} {name : String} {x : Json}

theorem lookup_eq_some_iff (hkeys : (ms.map Prod.fst).Nodup) :
    ms.lookup name = some x ↔ (name, x) ∈ ms := by
  rw [List.lookup_eq_some_iff]
  constructor
  · intro hall
    obtain ⟨front, back, rfl, _⟩ := hall
    exact List.mem_append_right _ List.mem_cons_self
  · intro hm
    obtain ⟨front, back, rfl⟩ := List.append_of_mem hm
    refine ⟨front, back, rfl, fun m hfront => ?_⟩
    rw [List.map_append] at hkeys
    have hne := (List.nodup_append.mp hkeys).2.2 m.1 (List.mem_map.mpr ⟨m, hfront, rfl⟩) name
      List.mem_cons_self
    simpa using hne.symm

theorem lookup_eq_none {β : Type} {ys : List (String × β)} (h : name ∉ ys.map Prod.fst) :
    ys.lookup name = none := by
  rw [List.lookup_eq_none_iff]
  intro m hm
  have hne : name ≠ m.1 := fun he => h (List.mem_map.mpr ⟨m, hm, he.symm⟩)
  simpa using hne

theorem lookup_cons {β : Type} (key name : String) (y : β) (ys : List (String × β)) :
    ((key, y) :: ys).lookup name = if name = key then some y else ys.lookup name := by
  by_cases h : name = key
  · rw [h, List.lookup_cons_self, if_pos rfl]
  · have hne : (name == key) = false := by simpa using h
    rw [List.lookup_cons, hne, if_neg h]

theorem lookup_optional_append (field : String) (value : Option Json) :
    (optional field value ++ ms).lookup name =
      if name = field then value.or (ms.lookup name) else ms.lookup name := by
  cases value with
  | none => exact (ite_self _).symm
  | some v => exact lookup_cons field name v ms

end Lookup

theorem Proper.of_member? {d x : Json} {name : String} (hd : d.Proper)
    (h : d.member? name = some x) : x.Proper := by
  cases hd with
  | obj hkeys hmembers => exact hmembers _ ((lookup_eq_some_iff hkeys).mp h)
  | _ => cases h

/-- One value is the other with the members of its objects in another order, at any depth. -/
inductive Reordered : Json → Json → Prop
  | refl (x : Json) : Reordered x x
  | arr {xs ys : List Json} : xs.length = ys.length →
      (∀ p ∈ xs.zip ys, Reordered p.1 p.2) → Reordered (.arr xs) (.arr ys)
  | obj {ms ns : List (String × Json)} : (ms.map Prod.fst).Perm (ns.map Prod.fst) →
      (∀ m ∈ ms, ∀ n ∈ ns, m.1 = n.1 → Reordered m.2 n.2) → Reordered (.obj ms) (.obj ns)

namespace Reordered
variable {ms ns : List (String × Json)} {x y : Json}

theorem eq_str {s : String} (h : x.Reordered (.str s)) : x = .str s := by
  cases h
  rfl

/-- Lists are compared item by item. -/
theorem zip {xs ys : List Json} (h : (Json.arr xs).Reordered (.arr ys)) :
    xs.length = ys.length ∧ ∀ p ∈ xs.zip ys, p.1.Reordered p.2 := by
  cases h with
  | refl =>
    refine ⟨rfl, fun p hp => ?_⟩
    obtain ⟨i, hi, rfl⟩ := List.mem_iff_getElem.mp hp
    rw [List.getElem_zip]
    exact .refl _
  | arr hlength hitems => exact ⟨hlength, hitems⟩

theorem exists_member? {name : String} (h : x.Reordered y) (hx : x.Proper) {b : Json}
    (hb : y.member? name = some b) : ∃ a, x.member? name = some a ∧ a.Reordered b := by
  cases h with
  | refl => exact ⟨b, hb, .refl b⟩
  | arr => cases hb
  | obj hperm hvalues =>
    cases hx with
    | obj hkeys _ =>
      have hn := (lookup_eq_some_iff (hperm.nodup_iff.mp hkeys)).mp hb
      obtain ⟨m, hm, hname⟩ := List.mem_map.mp (hperm.mem_iff.mpr (List.mem_map.mpr ⟨_, hn, rfl⟩))
      refine ⟨m.2, (lookup_eq_some_iff hkeys).mpr ?_, hvalues m hm _ hn hname⟩
      rw [← show m.1 = name from hname]
      exact hm

/-- Objects with the same keys agree up to the order if the values under each key do. -/
theorem of_lookup (hms : (ms.map Prod.fst).Nodup) (hns : (ns.map Prod.fst).Nodup)
    (hvalues : ∀ m ∈ ms, ∃ y, ns.lookup m.1 = some y ∧ m.2.Reordered y)
    (hkeys : ∀ name ∈ ns.map Prod.fst, name ∈ ms.map Prod.fst) :
    (Json.obj ms).Reordered (.obj ns) := by
  refine .obj ((List.perm_ext_iff_of_nodup hms hns).mpr fun name => ⟨?_, hkeys name⟩) ?_
  · intro hname
    obtain ⟨m, hm, rfl⟩ := List.mem_map.mp hname
    obtain ⟨y, hy, _⟩ := hvalues m hm
    exact List.mem_map.mpr ⟨_, (lookup_eq_some_iff hns).mp hy, rfl⟩
  · intro m hm n hn hname
    obtain ⟨y, hy, hreordered⟩ := hvalues m hm
    have hfound := (lookup_eq_some_iff hns).mpr (show (m.1, n.2) ∈ ns by rwa [hname])
    rw [hy, Option.some.injEq] at hfound
    rwa [← hfound]

end Reordered

section Alike
variable {x y : Json}

theorem Number.alike_refl (n : Number) : n.alike n = true := by
  cases n <;> simp [Number.alike]

theorem alikeItems_iff {xs ys : List Json} : alikeItems xs ys = true ↔
    xs.length = ys.length ∧ ∀ p ∈ xs.zip ys, alike p.1 p.2 = true := by
  induction xs generalizing ys with
  | nil => cases ys <;> simp [alikeItems]
  | cons x xs ih =>
    cases ys with
    | nil => simp [alikeItems]
    | cons y ys =>
      simp only [alikeItems, Bool.and_eq_true, ih, List.length_cons, Nat.add_right_cancel_iff,
        List.zip_cons_cons, List.forall_mem_cons]
      exact and_left_comm

theorem alikeItems_refl {xs : List Json} (h : ∀ x ∈ xs, alike x x = true) :
    alikeItems xs xs = true := by
  induction xs with
  | nil => rfl
  | cons x xs ih =>
    rw [alikeItems, h x List.mem_cons_self, ih fun z hz => h z (List.mem_cons_of_mem x hz)]
    rfl

theorem alikeMembers_iff {ms ns : List (String × Json)} : alikeMembers ms ns = true ↔
    ∀ m ∈ ms, ∃ y, ns.lookup m.1 = some y ∧ alike m.2 y = true := by
  induction ms with
  | nil => simp [alikeMembers]
  | cons m ms ih =>
    rw [alikeMembers, Bool.and_eq_true, ih, List.forall_mem_cons]
    cases hfound : ns.lookup m.1 with
    | none => simp
    | some y => simp

theorem Proper.alike_refl (h : x.Proper) : alike x x = true := by
  induction h with
  | null => rfl
  | bool => simp [alike]
  | num => exact Number.alike_refl _
  | str => simp [alike]
  | arr _ ih =>
    rw [alike]
    exact alikeItems_refl ih
  | obj hkeys _ ih =>
    rw [alike, Bool.and_eq_true, alikeMembers_iff]
    exact ⟨by simp, fun m hm => ⟨m.2, (lookup_eq_some_iff hkeys).mpr hm, ih m hm⟩⟩

/-- Another order of members makes no difference to the comparison of values. -/
theorem Reordered.alike (h : x.Reordered y) (hx : x.Proper) : alike x y = true := by
  induction h with
  | refl x => exact hx.alike_refl
  | arr hlength _ ih =>
    cases hx with
    | arr hitems =>
      rw [Json.alike, alikeItems_iff]
      exact ⟨hlength, fun p hp => ih p hp (hitems _ (List.of_mem_zip hp).1)⟩
  | obj hperm _ ih =>
    cases hx with
    | obj hkeys hmembers =>
      rw [Json.alike, Bool.and_eq_true, alikeMembers_iff]
      refine ⟨by simpa using hperm.length_eq, fun m hm => ?_⟩
      obtain ⟨n, hn, hname⟩ := List.mem_map.mp (hperm.mem_iff.mp (List.mem_map.mpr ⟨m, hm, rfl⟩))
      refine ⟨n.2, (lookup_eq_some_iff (hperm.nodup_iff.mp hkeys)).mpr (hname ▸ hn), ?_⟩
      exact ih m hm n hn hname.symm (hmembers m hm)

end Alike
end PortNet.Json
