import PortNet.Json.Printer
import PortNet.Json.Skimming
import PortNet.Table
import PortNet.Text.Quoted

namespace PortNet.Json

/-- What stands where something else was wanted. -/
inductive Found where
  | null
  | boolean (value : Bool)
  | integer (value : Int)
  | double (value : Binary64)
  | string (value : String)
  | sequence
  | map
deriving DecidableEq

def Found.text : Found → String
  | .null => "null"
  | .boolean b => "boolean `" ++ (if b then "true" else "false") ++ "`"
  | .integer n => "integer `" ++ String.ofList (writeInteger n) ++ "`"
  | .double d => "floating point `" ++ String.ofList (writeDouble d) ++ "`"
  | .string s => "string " ++ Text.quoted s
  | .sequence => "sequence"
  | .map => "map"

inductive Wanted where
  | string
  | boolean
  | sequence
  | map
  | record (name : String)
deriving DecidableEq

def Wanted.text : Wanted → String
  | .string => "a string"
  | .boolean => "a boolean"
  | .sequence => "a sequence"
  | .map => "a map"
  | .record name => "struct " ++ name

/-- Why a document is not what it should be. -/
inductive LoadError where
  | malformed (fault : Fault)
  | mismatch (found : Found) (wanted : Wanted)
  | missing (field : String)
  | repeated (field : String)
  | surplus (length : Nat)
deriving DecidableEq

def LoadError.message : LoadError → String
  | .malformed fault => fault.message
  | .mismatch found wanted => "invalid type: " ++ found.text ++ ", expected " ++ wanted.text
  | .missing field => "missing field `" ++ field ++ "`"
  | .repeated field => "duplicate field `" ++ field ++ "`"
  | .surplus length => "invalid length " ++ Nat.repr length ++ ", expected fewer elements in array"

/-- A decoder goes through a document in its order and stops at the first thing wrong with it, be
it a fault of the text or a value of another type. -/
abbrev Decoder (α : Type) := Document → Except LoadError α

/-- The complaint about a document that is not `wanted`. A scalar must itself be sound before its
type is looked at, a container is known by its opening bracket. -/
def Document.unlike (wanted : Wanted) : Document → LoadError
  | .broken fault => .malformed fault
  | .null => .mismatch .null wanted
  | .bool b => .mismatch (.boolean b) wanted
  | .num (.integer n) => .mismatch (.integer n) wanted
  | .num (.double d) => .mismatch (.double d) wanted
  | .str s => .mismatch (.string s) wanted
  | .arr _ _ => .mismatch .sequence wanted
  | .obj _ _ => .mismatch .map wanted

/-- A record type: its name in messages, the fields it knows, in the order in which missing ones
are looked for, and those that must be there. -/
structure RecordType where
  name : String
  fields : List String
  required : List String

namespace Decoder

def string : Decoder String
  | .str s => .ok s
  | doc => .error (doc.unlike .string)

def boolean : Decoder Bool
  | .bool b => .ok b
  | doc => .error (doc.unlike .boolean)

def nullable {α : Type} (decode : Decoder α) : Decoder (Option α)
  | .null => .ok none
  | doc => do .ok (some (← decode doc))

/-- The end of a container, which may be where its text broke off. -/
def close {α : Type} (value : α) : Option Fault → Except LoadError α
  | none => .ok value
  | some fault => .error (.malformed fault)

def list {α : Type} (decode : Decoder α) : Decoder (List α)
  | .arr items tail => do close (← items.mapM decode) tail
  | doc => .error (doc.unlike .sequence)

mutual

/-- The value itself. Of two members with one key the later value is kept, in the earlier place. -/
def value : Decoder Json
  | .broken fault => .error (.malformed fault)
  | .null => .ok .null
  | .bool b => .ok (.bool b)
  | .num n => .ok (.num n)
  | .str s => .ok (.str s)
  | .arr items tail => do close (.arr (← values items)) tail
  | .obj members tail => do close (.obj (← memberValues [] members)) tail

def values : List Document → Except LoadError (List Json)
  | [] => .ok []
  | doc :: docs => do
    let x ← value doc
    .ok (x :: (← values docs))

def memberValues (read : List (String × Json)) :
    List (String × Document) → Except LoadError (List (String × Json))
  | [] => .ok read
  | (key, doc) :: docs => do
    let x ← value doc
    memberValues (upsert Prod.fst (key, x) read) docs

end

def dictionary {α : Type} (decode : Decoder α) : Decoder (Dictionary α)
  | .obj members tail => do
    let put (d : Dictionary α) (member : String × Document) : Except LoadError (Dictionary α) := do
      .ok (d.put member.1 (← decode member.2))
    close (← members.foldlM put Table.empty) tail
  | doc => .error (doc.unlike .map)

/-- Goes through the members of a record, of which known fields may come only once. `add` takes in
one member; the second component lists the fields met so far. -/
def recordMembers {α : Type} (type : RecordType) (add : α → String → Document → Except LoadError α) :
    α × List String → List (String × Document) → Except LoadError (α × List String)
  | state, [] => .ok state
  | (record, met), (key, doc) :: members =>
    if met.contains key then .error (.repeated key)
    else do
      let record ← add record key doc
      recordMembers type add (record, if type.fields.contains key then key :: met else met) members

def record {α : Type} (type : RecordType) (start : α)
    (add : α → String → Document → Except LoadError α) : Decoder α
  | .obj members tail => do
    let (record, met) ← close (← recordMembers type add (start, []) members) tail
    match type.required.find? (fun field => !met.contains field) with
    | some field => .error (.missing field)
    | none => .ok record
  | doc => .error (doc.unlike (.record type.name))

end Decoder

/-- Decodes a whole text with a reader for its value: nothing but blanks may follow the value. -/
def decodeWith {α : Type} (reader : Nat → Reader) (decode : Decoder α) (text : String) :
    Except LoadError α := do
  let cs := text.toList
  let (doc, rest) := reader cs.length cs
  let x ← decode doc
  if (skipBlank rest).isEmpty then .ok x else .error (.malformed .trailingCharacters)

def decodeText {α : Type} (decode : Decoder α) (text : String) : Except LoadError α :=
  decodeWith (fun limit => readValue limit depthLimit) decode text

def decodeJson {α : Type} (decode : Decoder α) (j : Json) : Except LoadError α :=
  decode (.ofJson j)

end PortNet.Json
