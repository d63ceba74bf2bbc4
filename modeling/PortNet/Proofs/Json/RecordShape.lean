import PortNet.Proofs.Json.Decoding

namespace PortNet.Json

theorem lookup_flatMap_optional {slots : List (String × Option Json)}
    (hfields : (slots.map Prod.fst).Nodup) (name : String) :
    (slots.flatMap (fun slot => optional slot.1 slot.2)).lookup name =
      (slots.lookup name).join := by
  induction slots with
  | nil => rfl
  | cons slot slots ih =>
    obtain ⟨field, value⟩ := slot
    obtain ⟨hfield, hfields⟩ := List.nodup_cons.mp hfields
    rw [List.flatMap_cons, lookup_optional_append, lookup_cons, ih hfields]
    split
    · rename_i hname
      rw [lookup_eq_none (hname ▸ hfield), Option.join_none, Option.or_none]
      rfl
    · rfl

theorem sublist_flatMap_optional (slots : List (String × Option Json)) :
    ((slots.flatMap (fun slot => optional slot.1 slot.2)).map Prod.fst).Sublist
      (slots.map Prod.fst) := by
  induction slots with
  | nil => exact List.Sublist.refl _
  | cons slot slots ih =>
    rw [List.flatMap_cons, List.map_append]
    exact (sublist_optional slot.1 slot.2).append ih

/-- How a record is written: its fields in their order, each with its value if it has one, and then
the members that are none of its fields. -/
structure RecordShape (ρ : Type) (fields : List String) where
  slots : ρ → List (String × Option Json)
  extras : ρ → Extras fields
  keys_slots : ∀ r, (slots r).map Prod.fst = fields
  distinct : fields.Nodup

namespace RecordShape
variable {ρ : Type} {fields : List String} (shape : RecordShape ρ fields)

def toJson (r : ρ) : Json :=
  .obj ((shape.slots r).flatMap (fun slot => optional slot.1 slot.2) ++ (shape.extras r).members)

theorem nodup_slots (r : ρ) : ((shape.slots r).map Prod.fst).Nodup := by
  rw [shape.keys_slots]
  exact shape.distinct

theorem nodup_keys (r : ρ) : (shape.toJson r).keys.Nodup := by
  have hsublist := sublist_flatMap_optional (shape.slots r)
  rw [shape.keys_slots] at hsublist
  exact (shape.extras r).nodup_keys shape.distinct hsublist

theorem member?_toJson (r : ρ) (name : String) : (shape.toJson r).member? name =
    ((shape.slots r).lookup name).join.or ((shape.extras r).members.lookup name) := by
  rw [toJson, member?, List.lookup_append, lookup_flatMap_optional (shape.nodup_slots r)]

end RecordShape
end PortNet.Json
