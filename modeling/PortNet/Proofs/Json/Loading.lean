import PortNet.Json.Decoding
import PortNet.Proofs.Except
import PortNet.Proofs.Json.Reading

namespace PortNet

theorem mem_of_mem_upsert {α : Type} {key : α → String} {x y : α} {xs : List α}
    (h : y ∈ upsert key x xs) : y = x ∨ y ∈ xs := by
  induction xs with
  | nil => exact .inl (List.mem_singleton.mp h)
  | cons z zs ih =>
    rw [upsert] at h
    split at h
    · exact (List.mem_cons.mp h).imp_right (List.mem_cons_of_mem z)
    · rcases List.mem_cons.mp h with rfl | h
      · exact .inr List.mem_cons_self
      · exact (ih h).imp_right (List.mem_cons_of_mem z)

namespace Table
variable {α : Type} {key : α → String} {x : α} {xs : List α}

theorem mem_of_mem_foldl_insert {t : Table α key} (h : x ∈ (xs.foldl insert t).toList) :
    x ∈ t.toList ∨ x ∈ xs := by
  induction xs generalizing t with
  | nil => exact .inl h
  | cons y ys ih =>
    rcases ih h with hold | hnew
    · rcases mem_of_mem_upsert hold with rfl | hold
      · exact .inr List.mem_cons_self
      · exact .inl hold
    · exact .inr (List.mem_cons_of_mem y hnew)

theorem mem_of_mem_ofList (h : x ∈ (ofList xs : Table α key).toList) : x ∈ xs :=
  (mem_of_mem_foldl_insert h).resolve_left List.not_mem_nil

end Table

namespace Json
variable {depth limit : Nat} {doc : Document} {j : Json}

namespace Document

mutual

/-- The numbers of a document in their order, those under a repeated key included. -/
def numbers : Document → List Number
  | .num n => [n]
  | .arr items _ => itemNumbers items
  | .obj members _ => memberNumbers members
  | _ => []

def itemNumbers : List Document → List Number
  | [] => []
  | doc :: docs => numbers doc ++ itemNumbers docs

def memberNumbers : List (String × Document) → List Number
  | [] => []
  | (_, doc) :: members => numbers doc ++ memberNumbers members

end

/-- A document without fractions. -/
def Whole (doc : Document) : Prop := ∀ n ∈ doc.numbers, n.Whole

/-- A document with containers nested at most `depth` deep and with whole numbers only. A container
beyond that depth is opened, but nothing in it is read. -/
inductive Fits : Nat → Document → Prop
  | broken {depth : Nat} {fault : Fault} : Fits depth (.broken fault)
  | null {depth : Nat} : Fits depth .null
  | bool {depth : Nat} {value : Bool} : Fits depth (.bool value)
  | num {depth : Nat} {n : Number} : n.Whole → Fits depth (.num n)
  | str {depth : Nat} {value : String} : Fits depth (.str value)
  | deepList {depth : Nat} : Fits depth (.arr [] (some .tooDeep))
  | deepObject {depth : Nat} : Fits depth (.obj [] (some .tooDeep))
  | arr {depth : Nat} {items : List Document} {tail : Option Fault} :
      (∀ doc ∈ items, Fits depth doc) → Fits (depth + 1) (.arr items tail)
  | obj {depth : Nat} {members : List (String × Document)} {tail : Option Fault} :
      (∀ m ∈ members, Fits depth m.2) → Fits (depth + 1) (.obj members tail)

theorem Fits.items {depth : Nat} {items : List Document} {tail : Option Fault}
    (h : Fits (depth + 1) (.arr items tail)) : ∀ doc ∈ items, doc.Fits depth := by
  cases h with
  | deepList => exact fun _ hdoc => absurd hdoc List.not_mem_nil
  | arr hitems => exact hitems

theorem Fits.members {depth : Nat} {members : List (String × Document)} {tail : Option Fault}
    (h : Fits (depth + 1) (.obj members tail)) : ∀ m ∈ members, m.2.Fits depth := by
  cases h with
  | deepObject => exact fun _ hm => absurd hm List.not_mem_nil
  | obj hmembers => exact hmembers

end Document

open Document

/-- What the reader reads fits the depth, if its numbers are whole. -/
def Reader.Fits (depth : Nat) (reader : Reader) : Prop :=
  ∀ cs, (reader cs).1.Whole → (reader cs).1.Fits depth

/-- Whole items fit the depth. -/
def ItemsFit (depth : Nat) (docs : List Document) : Prop :=
  (∀ n ∈ itemNumbers docs, n.Whole) → ∀ doc ∈ docs, doc.Fits depth

/-- Whole members fit the depth. -/
def MembersFit (depth : Nat) (members : List (String × Document)) : Prop :=
  (∀ n ∈ memberNumbers members, n.Whole) → ∀ m ∈ members, m.2.Fits depth

theorem itemsFit_nil : ItemsFit depth [] := fun _ _ hdoc => absurd hdoc List.not_mem_nil

theorem membersFit_nil : MembersFit depth [] := fun _ _ hm => absurd hm List.not_mem_nil

theorem ItemsFit.cons {docs : List Document} (hdoc : doc.Whole → doc.Fits depth)
    (hdocs : ItemsFit depth docs) : ItemsFit depth (doc :: docs) := by
  intro h
  rw [itemNumbers, List.forall_mem_append] at h
  exact List.forall_mem_cons.mpr ⟨hdoc h.1, hdocs h.2⟩

theorem MembersFit.cons {key : String} {members : List (String × Document)}
    (hdoc : doc.Whole → doc.Fits depth) (hmembers : MembersFit depth members) :
    MembersFit depth ((key, doc) :: members) := by
  intro h
  rw [memberNumbers, List.forall_mem_append] at h
  exact List.forall_mem_cons.mpr ⟨hdoc h.1, hmembers h.2⟩

variable {item : Reader} {value : String → Reader}

theorem itemsFit_readItems (hitem : Reader.Fits depth item) (limit : Nat) (first : Bool)
    (cs : List Char) : ItemsFit depth (readItems item limit first cs).1 := by
  induction limit generalizing first cs with
  | zero => exact itemsFit_nil
  | succ limit ih =>
    unfold readItems
    extract_lets one
    have hone : ∀ cs, ItemsFit depth (one cs).1 := fun cs => .cons (hitem cs) (ih false _)
    repeat' split
    all_goals first
      | exact itemsFit_nil
      | exact hone _

theorem membersFit_readMembers (hvalue : ∀ key, Reader.Fits depth (value key)) (limit : Nat)
    (first : Bool) (cs : List Char) :
    MembersFit depth (readMembers value limit first cs).1 := by
  induction limit generalizing first cs with
  | zero => exact membersFit_nil
  | succ limit ih =>
    have hbroken : ∀ key fault, MembersFit depth [(key, .broken fault)] :=
      fun _ _ => .cons (fun _ => .broken) membersFit_nil
    have hmember : ∀ key cs, MembersFit depth ((key, (value key cs).1) ::
        (readMembers value limit false (value key cs).2).1) :=
      fun key cs => .cons (hvalue key cs) (ih false _)
    -- `one` reads a member, be it the first one or one behind a comma.
    unfold readMembers
    extract_lets one
    have hone : ∀ cs, MembersFit depth (one cs).1 := by
      intro cs
      unfold one
      split
      · exact membersFit_nil
      · split
        · exact hbroken _ _
        · split
          · exact hmember _ _
          · exact hbroken _ _
    repeat' split
    all_goals first
      | exact membersFit_nil
      | exact hone _

theorem fits_readWord {word cs : List Char} (h : doc.Fits depth) :
    (readWord word doc cs).1.Fits depth := by
  unfold readWord
  split
  · exact h
  · exact .broken

theorem fits_readNumber (cs : List Char) (h : (readNumber cs).1.Whole) :
    (readNumber cs).1.Fits depth := by
  unfold readNumber at h ⊢
  unfold readScalar at h ⊢
  split at h
  · exact .num (h _ List.mem_cons_self)
  · exact .broken

theorem fits_readString (cs : List Char) :
    (readScalar .str (scanString .plain [] cs)).1.Fits depth := by
  unfold readScalar
  split
  · exact .str
  · exact .broken

/-- A reader that may open containers reads one level more than the readers for what is in them. -/
theorem fits_readWith {inner : Option (Reader × (String → Reader))}
    (hinner : ∀ item value, inner = some (item, value) →
      ∃ inside, depth = inside + 1 ∧ Reader.Fits inside item ∧
        ∀ key, Reader.Fits inside (value key)) :
    Reader.Fits depth (readWith limit inner) := by
  intro cs
  unfold readWith
  split
  · exact fun _ => .broken
  · split
    · exact fun _ => fits_readWord .null
    · split
      · exact fun _ => fits_readWord .bool
      · split
        · exact fun _ => fits_readWord .bool
        · split
          · exact fun _ => fits_readString _
          · split
            · exact fits_readNumber _
            · split
              · split
                · exact fun _ => .deepList
                · obtain ⟨inside, rfl, hitem, _⟩ := hinner _ _ rfl
                  exact fun h => .arr (itemsFit_readItems hitem limit true _ h)
              · split
                · split
                  · exact fun _ => .deepObject
                  · obtain ⟨inside, rfl, _, hvalue⟩ := hinner _ _ rfl
                    exact fun h => .obj (membersFit_readMembers hvalue limit true _ h)
                · exact fun _ => .broken

/-- What is read from a text is nested at most as deep as the reader goes. -/
theorem fits_readValue (limit depth : Nat) : Reader.Fits depth (readValue limit depth) := by
  induction depth with
  | zero => exact fits_readWith fun _ _ hnone => absurd hnone (by simp)
  | succ depth ih =>
    refine fits_readWith fun item value hinner => ⟨depth, rfl, ?_⟩
    cases hinner
    exact ⟨ih, fun _ => ih⟩

/-- The document at the front of a text. -/
def documentOf (text : String) : Document :=
  (readValue text.toList.length depthLimit text.toList).1

theorem decode_documentOf {α : Type} {decode : Decoder α} {text : String} {x : α}
    (h : decodeText decode text = .ok x) : decode (documentOf text) = .ok x := by
  rw [decodeText, decodeWith] at h
  rw [documentOf]
  generalize readValue text.toList.length depthLimit text.toList = found at h ⊢
  obtain ⟨y, hy, h⟩ := bind_eq_ok.mp h
  split at h
  · cases h
    exact hy
  · cases h

namespace Decoder

theorem close_eq_ok {α : Type} {x y : α} {tail : Option Fault} :
    close x tail = .ok y ↔ tail = none ∧ x = y := by
  cases tail with
  | none => simp [close]
  | some fault => simp [close]

theorem values_eq_mapM (docs : List Document) : values docs = docs.mapM Decoder.value := by
  induction docs with
  | nil => rw [values, List.mapM_nil]; rfl
  | cons doc docs ih =>
    rw [values, List.mapM_cons, ih]
    rfl

/-- The members that were read have distinct keys, and their values come from the document. -/
theorem invariant_of_memberValues {P : Json → Prop} {read ms : List (String × Json)}
    {members : List (String × Document)} (h : memberValues read members = .ok ms)
    (hvalue : ∀ m ∈ members, ∀ x, Decoder.value m.2 = .ok x → P x)
    (hkeys : (read.map Prod.fst).Nodup) (hread : ∀ m ∈ read, P m.2) :
    (ms.map Prod.fst).Nodup ∧ ∀ m ∈ ms, P m.2 := by
  induction members generalizing read with
  | nil =>
    rw [memberValues] at h
    cases h
    exact ⟨hkeys, hread⟩
  | cons member members ih =>
    obtain ⟨key, doc⟩ := member
    rw [memberValues, bind_eq_ok] at h
    obtain ⟨x, hx, h⟩ := h
    refine ih h (fun m hm => hvalue m (List.mem_cons_of_mem _ hm)) (nodup_map_upsert hkeys) ?_
    intro m hm
    rcases mem_of_mem_upsert hm with rfl | hm
    · exact hvalue _ List.mem_cons_self x hx
    · exact hread m hm

/-- A value is nested no deeper than the document it is read off. -/
theorem fits_value (h : doc.Fits depth) (hvalue : Decoder.value doc = .ok j) : j.Fits depth := by
  induction h generalizing j with
  | broken => cases hvalue
  | null =>
    cases hvalue
    exact .null
  | bool =>
    cases hvalue
    exact .bool
  | num hn =>
    cases hvalue
    exact .num hn
  | str =>
    cases hvalue
    exact .str
  -- A container that was too deep to be read has no value.
  | deepList => cases hvalue
  | deepObject => cases hvalue
  | arr _ ih =>
    rw [Decoder.value, bind_eq_ok] at hvalue
    obtain ⟨xs, hxs, hclose⟩ := hvalue
    obtain ⟨_, rfl⟩ := close_eq_ok.mp hclose
    rw [values_eq_mapM] at hxs
    refine .arr fun x hx => ?_
    obtain ⟨doc, hdoc, hx⟩ := exists_mem_of_mapM hxs x hx
    exact ih doc hdoc hx
  | obj _ ih =>
    rw [Decoder.value, bind_eq_ok] at hvalue
    obtain ⟨ms, hms, hclose⟩ := hvalue
    obtain ⟨_, rfl⟩ := close_eq_ok.mp hclose
    obtain ⟨hkeys, hmembers⟩ := invariant_of_memberValues hms (fun m hm x hx => ih m hm hx)
      List.nodup_nil fun _ hm => absurd hm List.not_mem_nil
    exact .obj hkeys hmembers

theorem eq_null_of_value (h : Decoder.value doc = .ok .null) : doc = .null := by
  cases doc with
  | null => rfl
  | arr items tail =>
    rw [Decoder.value, bind_eq_ok] at h
    obtain ⟨xs, _, hclose⟩ := h
    cases (close_eq_ok.mp hclose).2
  | obj members tail =>
    rw [Decoder.value, bind_eq_ok] at h
    obtain ⟨ms, _, hclose⟩ := h
    cases (close_eq_ok.mp hclose).2
  | _ => cases h

variable {α : Type} {decode : Decoder α}

theorem nullable_eq_some {x : α} (h : nullable decode doc = .ok (some x)) :
    doc ≠ .null ∧ decode doc = .ok x := by
  by_cases hnull : doc = .null
  · rw [hnull, nullable] at h
    cases h
  · rw [nullable, bind_eq_ok] at h
    · obtain ⟨y, hy, h⟩ := h
      cases h
      exact ⟨hnull, hy⟩
    · exact hnull

theorem exists_mem_of_list {xs : List α} (hfits : doc.Fits (depth + 1))
    (h : list decode doc = .ok xs) : ∀ x ∈ xs, ∃ item, item.Fits depth ∧ decode item = .ok x := by
  cases doc with
  | arr items tail =>
    rw [list, bind_eq_ok] at h
    obtain ⟨ys, hys, hclose⟩ := h
    obtain ⟨_, rfl⟩ := close_eq_ok.mp hclose
    intro x hx
    obtain ⟨item, hitem, hdecode⟩ := exists_mem_of_mapM hys x hx
    exact ⟨item, hfits.items item hitem, hdecode⟩
  | _ => cases h

theorem exists_mem_of_dictionary {d : Dictionary α} (hfits : doc.Fits (depth + 1))
    (h : dictionary decode doc = .ok d) :
    ∀ m ∈ d.toList, ∃ item, item.Fits depth ∧ decode item = .ok m.2 := by
  cases doc with
  | obj members tail =>
    rw [dictionary, bind_eq_ok] at h
    obtain ⟨e, he, hclose⟩ := h
    obtain ⟨_, rfl⟩ := close_eq_ok.mp hclose
    refine invariant_of_foldlM
      (P := fun d => ∀ m ∈ d.toList, ∃ item, item.Fits depth ∧ decode item = .ok m.2) ?_ he
        fun _ hm => absurd hm List.not_mem_nil
    intro d member hmember d' hd hput
    obtain ⟨x, hx, hput⟩ := bind_eq_ok.mp hput
    cases hput
    intro m hm
    rcases mem_of_mem_upsert hm with rfl | hm
    · exact ⟨member.2, hfits.members member hmember, hx⟩
    · exact hd m hm
  | _ => cases h

variable {type : RecordType} {start r : α} {add : α → String → Document → Except LoadError α}

theorem invariant_of_recordMembers {P : α → Prop} {met met' : List String}
    {members : List (String × Document)}
    (hadd : ∀ r, ∀ m ∈ members, ∀ r', P r → add r m.1 m.2 = .ok r' → P r')
    (h : recordMembers type add (start, met) members = .ok (r, met')) (hstart : P start) :
    P r := by
  induction members generalizing start met with
  | nil =>
    rw [recordMembers] at h
    cases h
    exact hstart
  | cons m members ih =>
    obtain ⟨key, doc⟩ := m
    rw [recordMembers] at h
    split at h
    · cases h
    · obtain ⟨next, hnext, h⟩ := bind_eq_ok.mp h
      exact ih (fun r m hm => hadd r m (List.mem_cons_of_mem _ hm)) h
        (hadd start _ List.mem_cons_self next hstart hnext)

/-- What taking in a member keeps holds of a record that was read. -/
theorem invariant_of_record {P : α → Prop} (hfits : doc.Fits (depth + 1))
    (h : record type start add doc = .ok r) (hstart : P start)
    (hadd : ∀ r name (doc : Document) r', doc.Fits depth → P r → add r name doc = .ok r' → P r') :
    P r := by
  cases doc with
  | obj members tail =>
    rw [record, bind_eq_ok] at h
    obtain ⟨state, hmembers, h⟩ := h
    obtain ⟨⟨last, met⟩, hclose, hlast⟩ := bind_eq_ok.mp h
    obtain ⟨_, rfl⟩ := close_eq_ok.mp hclose
    dsimp only at hlast
    split at hlast
    · cases hlast
    · cases hlast
      exact invariant_of_recordMembers
        (fun r m hm r' => hadd r m.1 m.2 r' (hfits.members m hm)) hmembers hstart
  | _ => cases h

end Decoder
end Json
end PortNet
