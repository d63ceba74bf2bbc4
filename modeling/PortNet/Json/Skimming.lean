import PortNet.Json.Document

namespace PortNet.Json

inductive Bracket where
  | square
  | curly
deriving DecidableEq

namespace Bracket

def closing : Bracket → Char
  | square => ']'
  | curly => '\x7d'

def endFault : Bracket → Fault
  | square => .endInList
  | curly => .endInObject

def commaFault : Bracket → Fault
  | square => .commaOrBracketExpected
  | curly => .commaOrBraceExpected

end Bracket

/-- What is due next in a value that is only passed over. -/
inductive Due where
  | value
  | first
  | next
deriving DecidableEq

/-- The key and the colon before the value of a member. -/
def skipKey (cs : List Char) : Except Fault (List Char) :=
  match skipBlank cs with
  | [] => .error .endInObject
  | c :: rest =>
    if c = '"' then do
      match skipBlank (← skipString .plain rest) with
      | [] => .error .endInObject
      | d :: rest => if d = ':' then .ok rest else .error .colonExpected
    else .error .keyNotString

/-- Passes over a value without keeping it. Nesting may be of any depth, and a number is only
looked at for its spelling, any fault in which is one and the same. -/
def skim : Nat → Due → List Bracket → List Char → Except Fault (List Char)
  | 0, _, _, _ => .error .endInValue
  | limit + 1, .value, open_, cs =>
    match skipBlank cs with
    | [] => .error .endInValue
    | c :: rest =>
      if c = '[' then skim limit .first (.square :: open_) rest
      else if c = '\x7b' then skim limit .first (.curly :: open_) rest
      else do
        let rest ←
          if c = 'n' then expectWord ['u', 'l', 'l'] rest
          else if c = 't' then expectWord ['r', 'u', 'e'] rest
          else if c = 'f' then expectWord ['a', 'l', 's', 'e'] rest
          else if c = '"' then skipString .plain rest
          else if c = '-' ∨ c.isDigit then
            match Numeral.scan (c :: rest) with
            | .ok (_, rest) => .ok rest
            | .error _ => .error .invalidNumber
          else .error .valueExpected
        skim limit .next open_ rest
  | _ + 1, _, [], cs => .ok cs
  | limit + 1, due, bracket :: open_, cs =>
    let enter (cs : List Char) := do
      let cs ← if bracket = .curly then skipKey cs else .ok cs
      skim limit .value (bracket :: open_) cs
    match skipBlank cs with
    | [] => .error bracket.endFault
    | c :: rest =>
      if c = bracket.closing then skim limit .next open_ rest
      else if due = .first then enter (c :: rest)
      else if c = ',' then enter rest
      else .error bracket.commaFault

/-- A character takes at most two steps, one to enter a container and one to read. -/
def skimValue (limit : Nat) : Reader := fun cs =>
  match skim (2 * limit + 2) .value [] cs with
  | .ok rest => (.null, rest)
  | .error fault => (.broken fault, [])

/-- Reads a text of which only some members of the outermost object are wanted. -/
def readWanted (limit : Nat) (wanted : String → Bool) : Reader :=
  let item := readValue limit (depthLimit - 1)
  readWith limit (some (item, fun key => if wanted key then item else skimValue limit))

end PortNet.Json
