import Mathlib.Data.List.Nodup
import PortNet.Extras
import PortNet.Proofs.Except
import PortNet.Proofs.Json.MemberOrder

namespace PortNet

namespace Table
variable {α : Type} {key : α → String} {t t' : Table α key}

theorem eq_of_toList (h : t.toList = t'.toList) : t = t' := by
  obtain ⟨xs, hxs⟩ := t
  obtain ⟨ys, hys⟩ := t'
  obtain rfl : xs = ys := h
  rfl

theorem toList_foldl_insert (t : Table α key) {xs : List α}
    (h : ((t.toList ++ xs).map key).Nodup) : (xs.foldl insert t).toList = t.toList ++ xs := by
  induction xs generalizing t with
  | nil => rw [List.foldl_nil, List.append_nil]
  | cons x xs ih =>
    have hnew : key x ∉ t.keys := by
      rw [List.map_append] at h
      exact fun hm => (List.nodup_append.mp h).2.2 _ hm _ List.mem_cons_self rfl
    have hinsert := toList_insert_of_not_mem hnew
    rw [List.append_cons, ← hinsert] at h
    rw [List.foldl_cons, ih _ h, hinsert, ← List.append_cons]

/-- A table is built again from its list. -/
theorem ofList_toList (t : Table α key) : ofList t.toList = t :=
  eq_of_toList (toList_foldl_insert empty t.distinct)

end Table

namespace Extras
variable {reserved : List String} {e e' : Extras reserved} {name : String}

theorem eq_of_members (h : e.members = e'.members) : e = e' := by
  obtain ⟨entries, hentries⟩ := e
  obtain ⟨entries', hentries'⟩ := e'
  obtain rfl : entries = entries' := Table.eq_of_toList h
  rfl

theorem members_add (hname : name ∉ reserved) (hnew : name ∉ e.entries.keys) (value : Json) :
    (e.add name value).members = e.members ++ [(name, value)] := by
  rw [add, dif_neg hname]
  exact Table.toList_insert_of_not_mem hnew

/-- The keys of a record are distinct, those of its fields and those of its other members. -/
theorem nodup_keys (e : Extras reserved) (hreserved : reserved.Nodup)
    {ms : List (String × Json)} (h : (ms.map Prod.fst).Sublist reserved) :
    ((ms ++ e.members).map Prod.fst).Nodup := by
  rw [List.map_append]
  refine List.nodup_append.mpr ⟨hreserved.sublist h, e.entries.distinct, ?_⟩
  intro name hname other hother heq
  exact e.unreserved other hother (heq ▸ h.subset hname)

end Extras

namespace Json

theorem sublist_optional (name : String) (value : Option Json) :
    ((optional name value).map Prod.fst).Sublist [name] := by
  cases value with
  | none => exact List.nil_sublist _
  | some x => exact List.Sublist.refl _

namespace Document

theorem ofItems_eq_map (xs : List Json) : ofItems xs = xs.map ofJson := by
  induction xs with
  | nil => rfl
  | cons x xs ih => rw [ofItems, ih, List.map_cons]

theorem ofMembers_eq_map (ms : List (String × Json)) :
    ofMembers ms = ms.map (fun m => (m.1, ofJson m.2)) := by
  induction ms with
  | nil => rfl
  | cons m ms ih => rw [ofMembers, ih, List.map_cons]

end Document

namespace Decoder

theorem values_ofItems {xs : List Json} (h : ∀ x ∈ xs, value (.ofJson x) = .ok x) :
    values (Document.ofItems xs) = .ok xs := by
  induction xs with
  | nil => rfl
  | cons x xs ih =>
    rw [Document.ofItems, values, h x List.mem_cons_self,
      ih fun y hy => h y (List.mem_cons_of_mem x hy)]
    rfl

/-- Under distinct keys every member stays where it is. -/
theorem memberValues_ofMembers (read : List (String × Json)) {ms : List (String × Json)}
    (hkeys : ((read ++ ms).map Prod.fst).Nodup) (h : ∀ m ∈ ms, value (.ofJson m.2) = .ok m.2) :
    memberValues read (Document.ofMembers ms) = .ok (read ++ ms) := by
  induction ms generalizing read with
  | nil => rw [List.append_nil, Document.ofMembers, memberValues]
  | cons m ms ih =>
    obtain ⟨key, x⟩ := m
    have hnew : key ∉ read.map Prod.fst := by
      rw [List.map_append] at hkeys
      exact fun hm => (List.nodup_append.mp hkeys).2.2 key hm key List.mem_cons_self rfl
    rw [List.append_cons] at hkeys
    rw [Document.ofMembers, memberValues, h _ List.mem_cons_self]
    simp only [bind, Except.bind]
    rw [upsert_of_not_mem hnew,
      ih _ hkeys fun n hn => h n (List.mem_cons_of_mem _ hn), ← List.append_cons]

/-- A value is read off its own document. -/
theorem value_ofJson {j : Json} (h : j.Proper) : value (.ofJson j) = .ok j := by
  induction h with
  | null => rw [Document.ofJson, value]
  | bool => rw [Document.ofJson, value]
  | num => rw [Document.ofJson, value]
  | str => rw [Document.ofJson, value]
  | arr _ ih =>
    rw [Document.ofJson, value, values_ofItems ih]
    rfl
  | obj hkeys _ ih =>
    rw [Document.ofJson, value, memberValues_ofMembers [] hkeys ih]
    rfl

theorem nullable_ofJson {α : Type} {decode : Decoder α} {j : Json} {x : α} (hnull : j ≠ .null)
    (h : decode (.ofJson j) = .ok x) : nullable decode (.ofJson j) = .ok (some x) := by
  cases j with
  | null => exact absurd rfl hnull
  | _ =>
    rw [Document.ofJson] at h ⊢
    rw [nullable, h]
    · rfl
    · rintro ⟨⟩

theorem list_ofJson {α : Type} (decode : Decoder α) (encode : α → Json) (xs : List α)
    (h : ∀ x ∈ xs, decode (.ofJson (encode x)) = .ok x) :
    list decode (.ofJson (.arr (xs.map encode))) = .ok xs := by
  have hitems : ((xs.map encode).map Document.ofJson).mapM decode = .ok xs := by
    rw [List.map_map, List.mapM_map]
    exact (mapM_eq_map h).trans (by rw [List.map_id'])
  rw [Document.ofJson, Document.ofItems_eq_map, list, hitems]
  rfl

theorem dictionary_ofJson {α : Type} {decode : Decoder α} {encode : α → Json} {d : Dictionary α}
    (h : ∀ m ∈ d.toList, decode (.ofJson (encode m.2)) = .ok m.2) :
    dictionary decode (.ofJson (.obj (d.toList.map (fun m => (m.1, encode m.2))))) = .ok d := by
  have hfold : ∀ (ms : List (String × α)) (start : Dictionary α),
      (∀ m ∈ ms, decode (.ofJson (encode m.2)) = .ok m.2) →
        (ms.map (fun m => (m.1, Document.ofJson (encode m.2)))).foldlM
          (fun d member => do .ok (Dictionary.put d member.1 (← decode member.2))) start =
            .ok (ms.foldl Table.insert start) := by
    intro ms
    induction ms with
    | nil => exact fun _ _ => rfl
    | cons m ms ih =>
      intro start hms
      rw [List.map_cons, List.foldlM_cons, hms m List.mem_cons_self]
      exact ih _ fun n hn => hms n (List.mem_cons_of_mem m hn)
  rw [Document.ofJson, Document.ofMembers_eq_map, List.map_map, dictionary]
  simp only [Function.comp_def]
  rw [hfold _ _ h]
  exact congrArg Except.ok d.ofList_toList

/-- Takes in the members of an object one after another. -/
def addAll {α : Type} (add : α → String → Document → Except LoadError α) (start : α)
    (ms : List (String × Json)) : Except LoadError α :=
  ms.foldlM (fun r m => add r m.1 (.ofJson m.2)) start

section Records
variable {α : Type} {type : RecordType} {add : α → String → Document → Except LoadError α}
  {start : α} {ms : List (String × Json)}

/-- Where no key comes twice, the members of a record are taken in one after another, and the known
ones among them are remembered. -/
theorem recordMembers_ofMembers {met : List String} (hkeys : (ms.map Prod.fst).Nodup)
    (hmet : ∀ m ∈ ms, m.1 ∉ met) :
    recordMembers type add (start, met) (Document.ofMembers ms) = (do
      .ok (← addAll add start ms,
        ((ms.map Prod.fst).filter type.fields.contains).reverse ++ met)) := by
  induction ms generalizing start met with
  | nil => rfl
  | cons m ms ih =>
    obtain ⟨key, x⟩ := m
    obtain ⟨hkey, hkeys⟩ := List.nodup_cons.mp hkeys
    have hnew : met.contains key = false := by
      simpa using hmet _ List.mem_cons_self
    have hrest : ∀ m ∈ ms, m.1 ∉ if type.fields.contains key then key :: met else met := by
      intro m hm hin
      have hne : m.1 ≠ key := fun heq => hkey (List.mem_map.mpr ⟨m, hm, heq⟩)
      have hold := hmet m (List.mem_cons_of_mem _ hm)
      split at hin
      · exact (List.mem_cons.mp hin).elim hne hold
      · exact hold hin
    rw [Document.ofMembers, recordMembers, hnew, addAll, List.foldlM_cons]
    have hnames : ((ms.map Prod.fst).filter type.fields.contains).reverse ++
        (if type.fields.contains key then key :: met else met) =
          ((((key, x) :: ms).map Prod.fst).filter type.fields.contains).reverse ++ met := by
      rw [List.map_cons, List.filter_cons]
      split
      · rw [List.reverse_cons, List.append_assoc, List.singleton_append]
      · rfl
    cases hadd : add start key (.ofJson x) with
    | error problem => rfl
    | ok next =>
      simp only [Bool.false_eq_true, if_false, bind, Except.bind]
      rw [ih hkeys hrest, hnames]
      rfl

/-- A record is what its members make of it, if none of those that it needs is missing. -/
theorem record_ofJson (hkeys : (ms.map Prod.fst).Nodup)
    (hrequired : ∀ field ∈ type.required, field ∈ type.fields ∧ field ∈ ms.map Prod.fst) :
    record type start add (.ofJson (.obj ms)) = addAll add start ms := by
  rw [Document.ofJson, record, recordMembers_ofMembers hkeys fun _ _ => List.not_mem_nil]
  cases addAll add start ms with
  | error problem => rfl
  | ok r =>
    have hnone : type.required.find? (fun field =>
        !(((ms.map Prod.fst).filter type.fields.contains).reverse ++ []).contains field) = none := by
      rw [List.find?_eq_none]
      intro field hfield
      obtain ⟨hknown, hthere⟩ := hrequired field hfield
      simpa using ⟨by simpa using hthere, hknown⟩
    simp only [bind, Except.bind, close, hnone]

/-- A record that was read has taken in all members of its object, with those that it needs. -/
theorem addAll_of_record {r : α} (hkeys : (ms.map Prod.fst).Nodup)
    (h : record type start add (.ofJson (.obj ms)) = .ok r) :
    addAll add start ms = .ok r ∧ ∀ field ∈ type.required, field ∈ ms.map Prod.fst := by
  rw [Document.ofJson, record, recordMembers_ofMembers hkeys fun _ _ => List.not_mem_nil] at h
  cases hrun : addAll add start ms with
  | error problem =>
    rw [hrun] at h
    cases h
  | ok s =>
    rw [hrun] at h
    simp only [bind, Except.bind, close] at h
    split at h
    · cases h
    · rename_i hnone
      cases h
      refine ⟨rfl, fun field hfield => ?_⟩
      have hmet := List.find?_eq_none.mp hnone field hfield
      simp only [List.append_nil, Bool.not_eq_true', Bool.not_eq_false, List.contains_iff_mem,
        List.mem_reverse, List.mem_filter] at hmet
      exact hmet.1

theorem addAll_cons {name : String} {x : Json} (next : α)
    (h : add start name (.ofJson x) = .ok next) :
    addAll add start ((name, x) :: ms) = addAll add next ms := by
  change add start name (.ofJson x) >>= (fun r => addAll add r ms) = _
  rw [h]
  rfl

/-- A field that may be absent is set where its member is there. -/
theorem addAll_optional {β : Type} {name : String} {encode : β → Json} (set : Option β → α)
    {value? : Option β} (h : ∀ v, value? = some v →
      add (set none) name (.ofJson (encode v)) = .ok (set (some v))) :
    addAll add (set none) (optional name (value?.map encode) ++ ms) =
      addAll add (set value?) ms := by
  cases value? with
  | none => rfl
  | some v => exact addAll_cons _ (h v rfl)

/-- The members without a field of their own are kept in their order. -/
theorem addAll_extras {reserved : List String} (set : Extras reserved → α)
    (hadd : ∀ e name doc, name ∉ reserved →
      add (set e) name doc = (do .ok (set (← e.decode name doc))))
    {extras : Extras reserved} {depth : Nat} (hfits : ∀ m ∈ extras.members, Fits depth m.2) :
    addAll add (set .empty) extras.members = .ok (set extras) := by
  -- Whatever has been taken in already, with what is left it makes up all members.
  have hfrom : ∀ (ms : List (String × Json)) (e : Extras reserved),
      e.members ++ ms = extras.members → addAll add (set e) ms = .ok (set extras) := by
    intro ms
    induction ms with
    | nil =>
      intro e he
      rw [List.append_nil] at he
      rw [Extras.eq_of_members he]
      rfl
    | cons m ms ih =>
      intro e he
      obtain ⟨name, x⟩ := m
      have hmem : (name, x) ∈ extras.members := by simp [← he]
      have hname := extras.unreserved name (List.mem_map.mpr ⟨_, hmem, rfl⟩)
      have hnew : name ∉ e.entries.keys := by
        have hkeys : ((e.members ++ (name, x) :: ms).map Prod.fst).Nodup :=
          he ▸ extras.entries.distinct
        rw [List.map_append] at hkeys
        exact fun hm => (List.nodup_append.mp hkeys).2.2 _ hm _ List.mem_cons_self rfl
      have hnext := ih (e.add name x) (by
        rw [Extras.members_add hname hnew, ← List.append_cons, he])
      have hstep : add (set e) name (.ofJson x) = .ok (set (e.add name x)) := by
        rw [hadd e name _ hname, Extras.decode, value_ofJson (hfits _ hmem).proper]
        rfl
      rw [addAll_cons _ hstep, hnext]
  exact hfrom extras.members .empty rfl

end Records
end Decoder
end Json
end PortNet
