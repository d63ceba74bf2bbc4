namespace PortNet

/-- Puts `x` in the place of the first member that has its key, or at the end. -/
def upsert {α : Type} (key : α → String) (x : α) : List α → List α
  | [] => [x]
  | y :: ys => if key y = key x then x :: ys else y :: upsert key x ys

theorem map_upsert_of_mem {α : Type} {key : α → String} {x : α} {xs : List α}
    (h : key x ∈ xs.map key) : (upsert key x xs).map key = xs.map key := by
  induction xs with
  | nil => simp at h
  | cons y ys ih =>
    by_cases hy : key y = key x
    · simp [upsert, hy]
    · have ht : key x ∈ ys.map key := by
        rcases List.mem_cons.mp h with he | ht
        · exact absurd he.symm hy
        · exact ht
      simp [upsert, hy, ih ht]

theorem upsert_of_not_mem {α : Type} {key : α → String} {x : α} {xs : List α}
    (h : key x ∉ xs.map key) : upsert key x xs = xs ++ [x] := by
  induction xs with
  | nil => rfl
  | cons y ys ih =>
    simp only [List.map_cons, List.mem_cons, not_or] at h
    have hy : key y ≠ key x := fun he => h.1 he.symm
    simp [upsert, hy, ih h.2]

theorem mem_map_upsert {α : Type} {key : α → String} {x : α} {xs : List α} {k : String}
    (h : k ∈ (upsert key x xs).map key) : k = key x ∨ k ∈ xs.map key := by
  by_cases hx : key x ∈ xs.map key
  · rw [map_upsert_of_mem hx] at h
    exact .inr h
  · rw [upsert_of_not_mem hx, List.map_append] at h
    rcases List.mem_append.mp h with h | h
    · exact .inr h
    · exact .inl (by simpa using h)

theorem nodup_map_upsert {α : Type} {key : α → String} {x : α} {xs : List α}
    (h : (xs.map key).Nodup) : ((upsert key x xs).map key).Nodup := by
  by_cases hx : key x ∈ xs.map key
  · rwa [map_upsert_of_mem hx]
  · rw [upsert_of_not_mem hx, List.map_append]
    refine List.nodup_append.mpr ⟨h, by simp, ?_⟩
    intro a ha b hb he
    simp only [List.map_cons, List.map_nil, List.mem_singleton] at hb
    exact hx (hb ▸ he ▸ ha)

/-- A list whose members carry pairwise distinct keys. Its order is the order of first
insertion: a member inserted under a known key takes the place of the old one. -/
structure Table (α : Type) (key : α → String) where
  toList : List α
  distinct : (toList.map key).Nodup
deriving DecidableEq

namespace Table
variable {α : Type} {key : α → String}

def empty : Table α key := ⟨[], List.nodup_nil⟩

instance : Inhabited (Table α key) := ⟨empty⟩

def keys (t : Table α key) : List String := t.toList.map key

def find? (t : Table α key) (k : String) : Option α := t.toList.find? (fun x => key x = k)

def contains (t : Table α key) (k : String) : Bool := t.toList.any (fun x => key x = k)

def insert (t : Table α key) (x : α) : Table α key :=
  ⟨upsert key x t.toList, nodup_map_upsert t.distinct⟩

/-- Inserts the members of a list one after another, up to the first one whose key is taken; that
one is returned too. -/
def addUntilTaken (t : Table α key) : List α → Table α key × Option α
  | [] => (t, none)
  | x :: xs => if t.contains (key x) then (t, some x) else (t.insert x).addUntilTaken xs

def ofList (xs : List α) : Table α key := xs.foldl insert empty

theorem contains_iff {t : Table α key} {k : String} : t.contains k = true ↔ k ∈ t.keys := by
  simp [contains, keys, List.mem_map]

theorem mem_keys_insert {t : Table α key} {x : α} {k : String} (h : k ∈ (t.insert x).keys) :
    k = key x ∨ k ∈ t.keys :=
  mem_map_upsert h

theorem toList_insert_of_not_mem {t : Table α key} {x : α} (h : key x ∉ t.keys) :
    (t.insert x).toList = t.toList ++ [x] :=
  upsert_of_not_mem h

end Table

/-- A finite map from names that keeps its entries in the order they were first added. -/
abbrev Dictionary (β : Type) := Table (String × β) Prod.fst

namespace Dictionary
variable {β : Type}

def get? (d : Dictionary β) (name : String) : Option β := (d.find? name).map Prod.snd

def put (d : Dictionary β) (name : String) (value : β) : Dictionary β := d.insert (name, value)

end Dictionary
end PortNet
