import PortNet.Json.Decoding

namespace PortNet

/-- The members of a record that carry none of its own field names. They are kept in the order in
which they first appeared and mean nothing to the library. -/
structure Extras (reserved : List String) where
  entries : Dictionary Json
  unreserved : ∀ name ∈ entries.keys, name ∉ reserved
deriving DecidableEq

namespace Extras
variable {reserved : List String}

def empty : Extras reserved := ⟨Table.empty, by simp [Table.keys, Table.empty]⟩

instance : Inhabited (Extras reserved) := ⟨empty⟩

/-- A value under a reserved name is not taken in. -/
def add (extras : Extras reserved) (name : String) (value : Json) : Extras reserved :=
  if h : name ∈ reserved then extras
  else ⟨extras.entries.put name value, fun key hk => by
    rcases Table.mem_keys_insert hk with rfl | hk
    · exact h
    · exact extras.unreserved key hk⟩

def members (extras : Extras reserved) : List (String × Json) := extras.entries.toList

/-- Takes in a member that is none of the record's fields. -/
def decode (extras : Extras reserved) (name : String) (doc : Json.Document) :
    Except Json.LoadError (Extras reserved) := do
  .ok (extras.add name (← Json.Decoder.value doc))

def alike (a b : Extras reserved) : Bool := Json.alike (.obj a.members) (.obj b.members)

end Extras
end PortNet
