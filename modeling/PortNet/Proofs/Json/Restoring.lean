import PortNet.Proofs.Json.RecordShape

namespace PortNet

namespace Json

section Lookup
variable {β γ : Type}

theorem lookup_map (f : β → γ) (ms : List (String × β)) (name : String) :
    (ms.map (fun m => (m.1, f m.2))).lookup name = (ms.lookup name).map f := by
  induction ms with
  | nil => rfl
  | cons m ms ih =>
    rw [List.map_cons, lookup_cons, lookup_cons, ih]
    split <;> rfl

theorem lookup_upsert (name other : String) (x : β) (ms : List (String × β)) :
    (upsert Prod.fst (name, x) ms).lookup other =
      if other = name then some x else ms.lookup other := by
  induction ms with
  | nil => exact lookup_cons name other x []
  | cons m ms ih =>
    obtain ⟨key, y⟩ := m
    rw [upsert]
    split
    · rename_i hkey
      rw [lookup_cons, lookup_cons, show key = name from hkey]
      split <;> rfl
    · rename_i hkey
      rw [lookup_cons, lookup_cons, ih]
      by_cases h : other = key
      · have hne : other ≠ name := h ▸ hkey
        rw [if_pos h, if_pos h, if_neg hne]
      · rw [if_neg h, if_neg h]

end Lookup

/-- What `decode` takes in, `encode` gives back up to the order of members. -/
def Restores {α : Type} (accepted : Json → Prop) (decode : Decoder α) (encode : α → Json) : Prop :=
  ∀ ⦃x a⦄, x.Proper → accepted x → decode (.ofJson x) = .ok a → x.Reordered (encode a)

section Combinators
variable {α : Type} {accepted : Json → Prop} {decode : Decoder α} {encode : α → Json}

theorem restores_string : Restores (fun _ => True) Decoder.string .str := by
  intro x s _ _ h
  cases x with
  | str t =>
    cases h
    exact .refl _
  | _ => cases h

theorem restores_boolean : Restores (fun _ => True) Decoder.boolean .bool := by
  intro x b _ _ h
  cases x with
  | bool t =>
    cases h
    exact .refl _
  | _ => cases h

theorem restores_value : Restores (fun _ => True) Decoder.value id := by
  intro x y hx _ h
  rw [Decoder.value_ofJson hx] at h
  cases h
  exact .refl _

theorem Restores.list (h : Restores accepted decode encode) :
    Restores (fun x => ∀ xs, x = .arr xs → ∀ y ∈ xs, accepted y) (Decoder.list decode)
      (fun as => .arr (as.map encode)) := by
  intro x as hx haccepted hread
  cases hx with
  | arr hitems =>
    rename_i xs
    rw [Document.ofJson, Document.ofItems_eq_map, Decoder.list, bind_eq_ok] at hread
    obtain ⟨bs, hread, hclose⟩ := hread
    cases hclose
    have hmembers := mapM_eq_ok.mp hread
    rw [List.forall₂_map_left_iff, List.forall₂_iff_zip] at hmembers
    obtain ⟨hlength, hzip⟩ := hmembers
    refine .arr (by simpa using hlength) fun p hp => ?_
    rw [List.zip_map_right] at hp
    obtain ⟨q, hq, rfl⟩ := List.mem_map.mp hp
    have hmem := (List.of_mem_zip hq).1
    exact h (hitems _ hmem) (haccepted xs rfl _ hmem) (hzip hq)
  | _ => cases hread

end Combinators

/-- An object after a member has been taken in: the value is under its key, all others are as
before. -/
structure Takes (before after : Json) (name : String) (x : Json) : Prop where
  taken : ∃ y, after.member? name = some y ∧ x.Reordered y
  kept : ∀ other, other ≠ name → after.member? other = before.member? other

theorem mem_keys_of_member? {d x : Json} {name : String} (h : d.member? name = some x) :
    name ∈ d.keys := by
  cases d with
  | obj ms =>
    by_contra hno
    rw [member?, lookup_eq_none hno] at h
    cases h
  | _ => cases h

section Records
variable {α : Type} {add : α → String → Document → Except LoadError α} {write : α → Json}
  {start r : α} {ms : List (String × Json)}

/-- Members that are taken in one after another are all there at the end. -/
theorem takes_addAll (hkeys : (ms.map Prod.fst).Nodup)
    (hstep : ∀ m ∈ ms, ∀ s s', add s m.1 (.ofJson m.2) = .ok s' →
      Takes (write s) (write s') m.1 m.2)
    (h : Decoder.addAll add start ms = .ok r) :
    (∀ m ∈ ms, ∃ y, (write r).member? m.1 = some y ∧ m.2.Reordered y) ∧
      ∀ name, name ∉ ms.map Prod.fst →
        (write r).member? name = (write start).member? name := by
  induction ms generalizing start with
  | nil =>
    cases h
    exact ⟨fun _ hm => absurd hm List.not_mem_nil, fun _ _ => rfl⟩
  | cons m ms ih =>
    rw [Decoder.addAll, List.foldlM_cons, bind_eq_ok] at h
    obtain ⟨next, hnext, h⟩ := h
    obtain ⟨hkey, hkeys⟩ := List.nodup_cons.mp hkeys
    obtain ⟨hall, hkept⟩ := ih hkeys (fun n hn => hstep n (List.mem_cons_of_mem m hn)) h
    have htakes := hstep m List.mem_cons_self _ _ hnext
    refine ⟨List.forall_mem_cons.mpr ⟨?_, hall⟩, fun name hname => ?_⟩
    · rw [hkept _ hkey]
      exact htakes.taken
    · rw [List.map_cons, List.mem_cons, not_or] at hname
      rw [hkept _ hname.2, htakes.kept _ hname.1]

/-- An object is restored if every member is, and if what is written for the empty record has no
other keys. -/
theorem reordered_of_addAll (hkeys : (ms.map Prod.fst).Nodup)
    (hstep : ∀ m ∈ ms, ∀ s s', add s m.1 (.ofJson m.2) = .ok s' →
      Takes (write s) (write s') m.1 m.2)
    (h : Decoder.addAll add start ms = .ok r) (hobject : ∃ ns, write r = .obj ns)
    (hwritten : (write r).keys.Nodup)
    (hstart : ∀ name ∈ (write start).keys, name ∈ ms.map Prod.fst) :
    (Json.obj ms).Reordered (write r) := by
  obtain ⟨hall, hkept⟩ := takes_addAll hkeys hstep h
  obtain ⟨ns, hns⟩ := hobject
  rw [hns] at hall hkept hwritten ⊢
  refine Reordered.of_lookup hkeys hwritten hall fun name hname => ?_
  by_contra hno
  obtain ⟨n, hn, rfl⟩ := List.mem_map.mp hname
  have hfound : (Json.obj ns).member? n.1 = some n.2 := (lookup_eq_some_iff hwritten).mpr hn
  rw [hkept _ hno] at hfound
  exact hno (hstart _ (mem_keys_of_member? hfound))

/-- A dictionary as an object. -/
def ofDictionary (encode : α → Json) (d : Dictionary α) : Json :=
  .obj (d.toList.map (fun m => (m.1, encode m.2)))

theorem takes_put {encode : α → Json} {d : Dictionary α} {name : String} {x : Json} {a : α}
    (h : x.Reordered (encode a)) :
    Takes (ofDictionary encode d) (ofDictionary encode (d.put name a)) name x := by
  have hlookup : ∀ other, (ofDictionary encode (d.put name a)).member? other =
      if other = name then some (encode a) else (ofDictionary encode d).member? other := by
    intro other
    rw [ofDictionary, ofDictionary, member?, member?, lookup_map, lookup_map, Dictionary.put,
      Table.insert, lookup_upsert]
    split <;> rfl
  refine ⟨⟨_, (hlookup name).trans (if_pos rfl), h⟩, fun other hother => ?_⟩
  rw [hlookup, if_neg hother]

theorem Restores.dictionary {decode : Decoder α} {encode : α → Json}
    (h : Restores (fun _ => True) decode encode) :
    Restores (fun _ => True) (Decoder.dictionary decode) (ofDictionary encode) := by
  intro x d hx _ hread
  cases hx with
  | obj hkeys hmembers =>
    rename_i ms
    rw [Document.ofJson, Document.ofMembers_eq_map, Decoder.dictionary, bind_eq_ok] at hread
    obtain ⟨_, hread, hclose⟩ := hread
    cases hclose
    rw [List.foldlM_map] at hread
    have hrun : Decoder.addAll (fun (d : Dictionary α) name doc => do
        .ok (d.put name (← decode doc))) Table.empty ms = .ok d := hread
    refine reordered_of_addAll hkeys ?_ hrun ⟨_, rfl⟩ ?_
      fun _ hname => absurd hname List.not_mem_nil
    · intro m hm s s' hput
      obtain ⟨a, ha, hput⟩ := bind_eq_ok.mp hput
      cases hput
      exact takes_put (h (hmembers m hm) trivial ha)
    · rw [ofDictionary, keys, List.map_map]
      exact d.distinct
  | _ => cases hread

end Records

namespace RecordShape
variable {ρ : Type} {fields : List String} (shape : RecordShape ρ fields)
  {r r' : ρ} {name : String} {x : Json}

/-- A field is set in its place. -/
theorem takes_field {y : Json} (hx : x.Reordered y)
    (hslots : shape.slots r' = upsert Prod.fst (name, some y) (shape.slots r))
    (hextras : shape.extras r' = shape.extras r) :
    Takes (shape.toJson r) (shape.toJson r') name x := by
  refine ⟨⟨y, ?_, hx⟩, fun other hother => ?_⟩
  · rw [member?_toJson, hslots, lookup_upsert, if_pos rfl]
    rfl
  · rw [member?_toJson, member?_toJson, hslots, hextras, lookup_upsert, if_neg hother]

/-- A member that is no field is kept as it is. -/
theorem takes_extra (hx : x.Proper) (hname : name ∉ fields)
    {set : Extras fields → ρ}
    (h : (do .ok (set (← (shape.extras r).decode name (.ofJson x)))) =
      (.ok r' : Except LoadError ρ))
    (hset : ∀ e, shape.slots (set e) = shape.slots r ∧ shape.extras (set e) = e) :
    Takes (shape.toJson r) (shape.toJson r') name x := by
  obtain ⟨e, hread, h⟩ := bind_eq_ok.mp h
  cases h
  obtain ⟨hslots, hextras⟩ := hset e
  rw [Extras.decode, Decoder.value_ofJson hx] at hread
  cases hread
  have hlookup : ∀ other, ((shape.extras r).add name x).members.lookup other =
      if other = name then some x else (shape.extras r).members.lookup other := by
    intro other
    rw [Extras.add, dif_neg hname]
    exact lookup_upsert name other x (shape.extras r).members
  have hnone : (shape.slots r).lookup name = none :=
    lookup_eq_none (by rwa [shape.keys_slots])
  refine ⟨⟨x, ?_, .refl x⟩, fun other hother => ?_⟩
  · rw [member?_toJson, hslots, hextras, hnone, hlookup, if_pos rfl]
    rfl
  · rw [member?_toJson, member?_toJson, hslots, hextras, hlookup, if_neg hother]

section Fields
variable {α : Type} {accepted : Json → Prop} {decode : Decoder α} {encode : α → Json}

theorem takes_read {set : α → ρ} (hrestores : Restores accepted decode encode) (hx : x.Proper)
    (haccepted : accepted x)
    (h : (do .ok (set (← decode (.ofJson x)))) = (.ok r' : Except LoadError ρ))
    (hset : ∀ a, shape.slots (set a) = upsert Prod.fst (name, some (encode a)) (shape.slots r) ∧
      shape.extras (set a) = shape.extras r) :
    Takes (shape.toJson r) (shape.toJson r') name x := by
  obtain ⟨a, hread, h⟩ := bind_eq_ok.mp h
  cases h
  obtain ⟨hslots, hextras⟩ := hset a
  exact shape.takes_field (hrestores hx haccepted hread) hslots hextras

/-- Any value but null sets a field that may be absent. -/
theorem takes_nullable {set : Option α → ρ} (hrestores : Restores accepted decode encode)
    (hx : x.Proper) (haccepted : accepted x) (hnull : x ≠ .null)
    (h : (do .ok (set (← Decoder.nullable decode (.ofJson x)))) = (.ok r' : Except LoadError ρ))
    (hset : ∀ a, shape.slots (set a) = upsert Prod.fst (name, a.map encode) (shape.slots r) ∧
      shape.extras (set a) = shape.extras r) :
    Takes (shape.toJson r) (shape.toJson r') name x := by
  have hread : Decoder.nullable decode (.ofJson x) = (do .ok (some (← decode (.ofJson x)))) := by
    cases x with
    | null => exact absurd rfl hnull
    | _ => rfl
  rw [hread] at h
  obtain ⟨_, hvalue, h⟩ := bind_eq_ok.mp h
  obtain ⟨a, ha, hsome⟩ := bind_eq_ok.mp hvalue
  cases hsome
  cases h
  obtain ⟨hslots, hextras⟩ := hset (some a)
  exact shape.takes_field (hrestores hx haccepted ha) hslots hextras

end Fields

/-- A record is restored if each of its members is, and if the document has the fields that are
written even for an empty record. -/
theorem reordered_of_record {type : RecordType}
    {add : ρ → String → Document → Except LoadError ρ} {start : ρ} {d : Json} (hd : d.Proper)
    (h : Decoder.record type start add (.ofJson d) = .ok r)
    (hstep : ∀ name x, d.member? name = some x → x.Proper → ∀ s s',
      add s name (.ofJson x) = .ok s' → Takes (shape.toJson s) (shape.toJson s') name x)
    (hstart : ∀ name ∈ (shape.toJson start).keys, name ∈ type.required ∨ name ∈ d.keys) :
    d.Reordered (shape.toJson r) := by
  cases hd with
  | obj hkeys hmembers =>
    obtain ⟨hrun, hrequired⟩ := Decoder.addAll_of_record hkeys h
    refine reordered_of_addAll hkeys ?_ hrun ⟨_, rfl⟩ (shape.nodup_keys r) fun name hname => ?_
    · exact fun m hm => hstep m.1 m.2 ((lookup_eq_some_iff hkeys).mpr hm) (hmembers m hm)
    · exact (hstart name hname).elim (hrequired name) id
  | _ => cases h

end RecordShape
end Json
end PortNet
