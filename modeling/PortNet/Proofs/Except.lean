import Mathlib.Data.List.Forall2

namespace PortNet

theorem bind_eq_ok {ε α β : Type} {x : Except ε α} {f : α → Except ε β} {y : β} :
    x >>= f = .ok y ↔ ∃ a, x = .ok a ∧ f a = .ok y := by
  cases x with
  | error problem => simp [bind, Except.bind]
  | ok a => simp [bind, Except.bind]

theorem eq_ok_of_toOption {ε α : Type} {x : Except ε α} {a : α} (h : x.toOption = some a) :
    x = .ok a := by
  cases x with
  | error problem => cases h
  | ok b =>
    cases h
    rfl

/-- A step succeeds on a list exactly if it does on each member, and gives their results in order. -/
theorem mapM_eq_ok {ε α β : Type} {f : α → Except ε β} {xs : List α} {ys : List β} :
    xs.mapM f = .ok ys ↔ List.Forall₂ (fun x y => f x = .ok y) xs ys := by
  induction xs generalizing ys with
  | nil =>
    rw [List.forall₂_nil_left_iff]
    exact ⟨fun h => (Except.ok.inj h).symm, fun h => h ▸ rfl⟩
  | cons x xs ih =>
    rw [List.mapM_cons, bind_eq_ok]
    constructor
    · rintro ⟨y, hy, h⟩
      obtain ⟨rest, hrest, h⟩ := bind_eq_ok.mp h
      cases h
      exact .cons hy (ih.mp hrest)
    · rintro (_ | ⟨hy, hrest⟩)
      exact ⟨_, hy, bind_eq_ok.mpr ⟨_, ih.mpr hrest, rfl⟩⟩

/-- What each single success determines about its result is determined of all of them, once a step
has succeeded on every member. -/
theorem map_eq_of_mapM {ε α β γ : Type} {f : α → Except ε β} {view : β → γ} {k : α → γ}
    {xs : List α} {ys : List β} (h : xs.mapM f = .ok ys)
    (hf : ∀ x ∈ xs, ∀ y, f x = .ok y → view y = k x) : ys.map view = xs.map k := by
  rw [mapM_eq_ok] at h
  induction h with
  | nil => rfl
  | @cons x y xs ys hy _ ih =>
    rw [List.map_cons, List.map_cons, hf x List.mem_cons_self y hy,
      ih fun z hz => hf z (List.mem_cons_of_mem x hz)]

/-- A step that succeeds on every member has given the results of a total function, once each
single success has. -/
theorem eq_map_of_mapM {ε α β : Type} {f : α → Except ε β} {k : α → β} {xs : List α} {ys : List β}
    (h : xs.mapM f = .ok ys) (hf : ∀ x ∈ xs, ∀ y, f x = .ok y → y = k x) : ys = xs.map k := by
  have hview : ys.map id = xs.map k := map_eq_of_mapM h hf
  rwa [List.map_id] at hview

theorem bind_eq_error {ε α β : Type} {x : Except ε α} {f : α → Except ε β} {problem : ε} :
    x >>= f = .error problem ↔ x = .error problem ∨ ∃ a, x = .ok a ∧ f a = .error problem := by
  cases x with
  | error other => simp [bind, Except.bind]
  | ok a => simp [bind, Except.bind]

theorem mapError_eq_error {ε ε' α : Type} {f : ε → ε'} {x : Except ε α} {problem : ε'} :
    x.mapError f = .error problem ↔ ∃ cause, x = .error cause ∧ f cause = problem := by
  cases x with
  | error cause =>
    have hmap : (Except.error cause : Except ε α).mapError f = .error (f cause) := rfl
    rw [hmap]
    simp
  | ok a =>
    have hmap : (Except.ok a : Except ε α).mapError f = .ok a := rfl
    rw [hmap]
    simp

theorem mapError_eq_ok {ε ε' α : Type} {f : ε → ε'} {x : Except ε α} {a : α} :
    x.mapError f = .ok a ↔ x = .ok a := by
  cases x with
  | error cause => exact ⟨nofun, nofun⟩
  | ok b =>
    have hmap : (Except.ok b : Except ε α).mapError f = .ok b := rfl
    rw [hmap]
    simp

/-- A step that succeeds on every member succeeds on the list. -/
theorem mapM_eq_map {ε α β : Type} {f : α → Except ε β} {k : α → β} {xs : List α}
    (h : ∀ x ∈ xs, f x = .ok (k x)) : xs.mapM f = .ok (xs.map k) := by
  rw [mapM_eq_ok, List.forall₂_map_right_iff]
  exact List.forall₂_same.mpr h

/-- What stops a step on a list has stopped it on a member. -/
theorem exists_error_of_mapM {ε α β : Type} {f : α → Except ε β} {xs : List α} {problem : ε}
    (h : xs.mapM f = .error problem) : ∃ x ∈ xs, f x = .error problem := by
  induction xs with
  | nil => cases h
  | cons x xs ih =>
    rw [List.mapM_cons, bind_eq_error] at h
    rcases h with hx | ⟨y, _, h⟩
    · exact ⟨x, List.mem_cons_self, hx⟩
    · rcases bind_eq_error.mp h with hrest | ⟨rest, _, h⟩
      · obtain ⟨z, hz, hfail⟩ := ih hrest
        exact ⟨z, List.mem_cons_of_mem x hz, hfail⟩
      · cases h

theorem exists_ok_of_mapM {ε α β : Type} {f : α → Except ε β} {xs : List α} {ys : List β}
    (h : xs.mapM f = .ok ys) : ∀ x ∈ xs, ∃ y, f x = .ok y := by
  rw [mapM_eq_ok] at h
  induction h with
  | nil => simp
  | cons hy _ ih => exact List.forall_mem_cons.mpr ⟨⟨_, hy⟩, ih⟩

/-- Every result of a step on a list comes from a member of the list. -/
theorem exists_mem_of_mapM {ε α β : Type} {f : α → Except ε β} {xs : List α} {ys : List β}
    (h : xs.mapM f = .ok ys) : ∀ y ∈ ys, ∃ x ∈ xs, f x = .ok y := by
  rw [mapM_eq_ok] at h
  induction h with
  | nil => simp
  | @cons x _ xs _ hy _ ih =>
    refine List.forall_mem_cons.mpr ⟨⟨x, List.mem_cons_self, hy⟩, fun y hm => ?_⟩
    obtain ⟨z, hz, hfz⟩ := ih y hm
    exact ⟨z, List.mem_cons_of_mem x hz, hfz⟩

/-- What every successful step keeps holds at the end. -/
theorem invariant_of_foldlM {ε α β : Type} {f : β → α → Except ε β} {xs : List α} {start last : β}
    {P : β → Prop} (hstep : ∀ b, ∀ x ∈ xs, ∀ b', P b → f b x = .ok b' → P b')
    (h : xs.foldlM f start = .ok last) (hstart : P start) : P last := by
  induction xs generalizing start with
  | nil =>
    cases h
    exact hstart
  | cons x xs ih =>
    rw [List.foldlM_cons, bind_eq_ok] at h
    obtain ⟨next, hnext, h⟩ := h
    exact ih (fun b y hy => hstep b y (List.mem_cons_of_mem x hy)) h
      (hstep start x List.mem_cons_self next hstart hnext)

end PortNet
