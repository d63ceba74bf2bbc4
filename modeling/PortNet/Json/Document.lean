import PortNet.Json.Numeral
import PortNet.Json.Quotation

namespace PortNet.Json

/-- A value as far as it could be read from a text. A fault stands where it was met, and nothing
follows it: in the place of a value, or at the end of the items or members read before it. -/
inductive Document where
  | broken (fault : Fault)
  | null
  | bool (value : Bool)
  | num (value : Number)
  | str (value : String)
  | arr (items : List Document) (tail : Option Fault)
  | obj (members : List (String × Document)) (tail : Option Fault)
deriving Inhabited

namespace Document

mutual

/-- A value that no text was needed for has no fault. -/
def ofJson : Json → Document
  | .null => .null
  | .bool b => .bool b
  | .num n => .num n
  | .str s => .str s
  | .arr xs => .arr (ofItems xs) none
  | .obj xs => .obj (ofMembers xs) none

def ofItems : List Json → List Document
  | [] => []
  | x :: xs => ofJson x :: ofItems xs

def ofMembers : List (String × Json) → List (String × Document)
  | [] => []
  | (k, x) :: xs => (k, ofJson x) :: ofMembers xs

end
end Document

def isBlank (c : Char) : Bool := c = ' ' || c = '\t' || c = '\n' || c = '\r'

def skipBlank (cs : List Char) : List Char := cs.dropWhile isBlank

/-- Reads one value from the front of a text and returns the text behind it. -/
abbrev Reader := List Char → Document × List Char

/-- The rest of one of the three words, whose first letter has been seen. -/
def expectWord : List Char → List Char → Except Fault (List Char)
  | [], rest => .ok rest
  | _ :: _, [] => .error .endInValue
  | w :: ws, c :: rest => if c = w then expectWord ws rest else .error .wordExpected

def readScalar {α : Type} (wrap : α → Document) : Except Fault (α × List Char) → Document × List Char
  | .ok (value, rest) => (wrap value, rest)
  | .error fault => (.broken fault, [])

def readWord (word : List Char) (value : Document) (rest : List Char) : Document × List Char :=
  match expectWord word rest with
  | .ok rest => (value, rest)
  | .error fault => (.broken fault, [])

def readNumber (cs : List Char) : Document × List Char :=
  readScalar .num (do
    let (numeral, rest) ← Numeral.scan cs
    .ok (← numeral.toNumber, rest))

/-- The items of a list up to its closing bracket. Every round takes at least one character, so
`limit` only has to be as large as the text. -/
def readItems (item : Reader) : Nat → Bool → List Char →
    List Document × Option Fault × List Char
  | 0, _, _ => ([], some .endInList, [])
  | limit + 1, first, cs =>
    let one (cs : List Char) :=
      let (doc, rest) := item cs
      let (docs, tail, rest) := readItems item limit false rest
      (doc :: docs, tail, rest)
    match skipBlank cs with
    | [] => ([], some .endInList, [])
    | c :: rest =>
      if c = ']' then ([], none, rest)
      else if first then one (c :: rest)
      else if c = ',' then
        if (skipBlank rest).head? = some ']' then ([], some .trailingComma, [])
        else one rest
      else ([], some .commaOrBracketExpected, [])

/-- The members of an object up to its closing brace; `value` reads the value under a key. A key
without a colon is kept, with the fault for its value. -/
def readMembers (value : String → Reader) : Nat → Bool → List Char →
    List (String × Document) × Option Fault × List Char
  | 0, _, _ => ([], some .endInObject, [])
  | limit + 1, first, cs =>
    let one (cs : List Char) :=
      match scanString .plain [] cs with
      | .error fault => ([], some fault, [])
      | .ok (key, rest) =>
        match skipBlank rest with
        | [] => ([(key, .broken .endInObject)], none, [])
        | c :: rest =>
          if c = ':' then
            let (doc, rest) := value key rest
            let (docs, tail, rest) := readMembers value limit false rest
            ((key, doc) :: docs, tail, rest)
          else ([(key, .broken .colonExpected)], none, [])
    match skipBlank cs with
    | [] => ([], some .endInObject, [])
    | c :: rest =>
      if c = '\x7d' then ([], none, rest)
      else if first then
        if c = '"' then one rest else ([], some .keyNotString, [])
      else if c = ',' then
        match skipBlank rest with
        | [] => ([], some .endInValue, [])
        | d :: rest =>
          if d = '"' then one rest
          else if d = '\x7d' then ([], some .trailingComma, [])
          else ([], some .keyNotString, [])
      else ([], some .commaOrBraceExpected, [])

/-- Reads a value whose inner values are left to two readers: one for the items of a list, one for
the members of an object. Without them a container is too deep. -/
def readWith (limit : Nat) (inner : Option (Reader × (String → Reader))) : Reader := fun cs =>
  match skipBlank cs with
  | [] => (.broken .endInValue, [])
  | c :: rest =>
    if c = 'n' then readWord ['u', 'l', 'l'] .null rest
    else if c = 't' then readWord ['r', 'u', 'e'] (.bool true) rest
    else if c = 'f' then readWord ['a', 'l', 's', 'e'] (.bool false) rest
    else if c = '"' then readScalar .str (scanString .plain [] rest)
    else if c = '-' ∨ c.isDigit then readNumber (c :: rest)
    else if c = '[' then
      match inner with
      | none => (.arr [] (some .tooDeep), [])
      | some (item, _) =>
        let (docs, tail, rest) := readItems item limit true rest
        (.arr docs tail, rest)
    else if c = '\x7b' then
      match inner with
      | none => (.obj [] (some .tooDeep), [])
      | some (_, value) =>
        let (docs, tail, rest) := readMembers value limit true rest
        (.obj docs tail, rest)
    else (.broken .valueExpected, [])

/-- Containers may be nested this deep. -/
def depthLimit : Nat := 127

def readValue (limit : Nat) : Nat → Reader
  | 0 => readWith limit none
  | depth + 1 => readWith limit (some (readValue limit depth, fun _ => readValue limit depth))

end PortNet.Json
