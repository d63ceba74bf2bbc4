import PortNet.Json.Fault

namespace PortNet.Json

/-- Where a reader stands inside a string: in plain text, behind a backslash, among the digits
of an escape, or between the two halves of a surrogate pair. -/
inductive StringMode where
  | plain
  | escape
  | hex (high : Option Nat) (left value : Nat)
  | backslash (high : Nat)
  | letter (high : Nat)
deriving DecidableEq

def hexValue (c : Char) : Option Nat :=
  if '0' ≤ c ∧ c ≤ '9' then some (c.toNat - 48)
  else if 'a' ≤ c ∧ c ≤ 'f' then some (c.toNat - 87)
  else if 'A' ≤ c ∧ c ≤ 'F' then some (c.toNat - 55)
  else none

/-- The character that a letter behind a backslash stands for. -/
def shortEscape (c : Char) : Option Char :=
  if c = '"' ∨ c = '\\' ∨ c = '/' then some c
  else if c = 'b' then some '\x08'
  else if c = 'f' then some '\x0c'
  else if c = 'n' then some '\n'
  else if c = 'r' then some '\r'
  else if c = 't' then some '\t'
  else none

/-- Whether the text has four more bytes, as many as the digits of an escape take. -/
def fourBytes (cs : List Char) : Bool := 4 ≤ (String.ofList (cs.take 4)).utf8ByteSize

def isLeading (n : Nat) : Bool := 0xD800 ≤ n && n ≤ 0xDBFF

def isTrailing (n : Nat) : Bool := 0xDC00 ≤ n && n ≤ 0xDFFF

/-- What a finished hexadecimal escape leads to. A leading surrogate waits for its partner. -/
def closeHex (high : Option Nat) (value : Nat) (read : List Char) :
    Except Fault (StringMode × List Char) :=
  match high with
  | none =>
    if isTrailing value then .error .loneSurrogate
    else if isLeading value then .ok (.backslash value, read)
    else .ok (.plain, Char.ofNat value :: read)
  | some h =>
    if isTrailing value then
      .ok (.plain, Char.ofNat (0x10000 + (h - 0xD800) * 0x400 + (value - 0xDC00)) :: read)
    else .error .loneSurrogate

/-- What one more character does inside a string; the text read so far is kept backwards. The
closing quote is not among these characters. -/
def stepString (mode : StringMode) (read : List Char) (c : Char) (rest : List Char) :
    Except Fault (StringMode × List Char) :=
  match mode with
  | .plain =>
    if c = '\\' then .ok (.escape, read)
    else if c < ' ' then .error .controlCharacter
    else .ok (.plain, c :: read)
  | .escape =>
    if c = 'u' then
      if fourBytes rest then .ok (.hex none 4 0, read) else .error .endInString
    else match shortEscape c with
      | some d => .ok (.plain, d :: read)
      | none => .error .invalidEscape
  | .hex high left value =>
    match hexValue c with
    | none => .error .invalidEscape
    | some d =>
      if left ≤ 1 then closeHex high (16 * value + d) read
      else .ok (.hex high (left - 1) (16 * value + d), read)
  | .backslash high => if c = '\\' then .ok (.letter high, read) else .error .splitSurrogates
  | .letter high =>
    if c = 'u' then
      if fourBytes rest then .ok (.hex (some high) 4 0, read) else .error .endInString
    else .error .splitSurrogates

/-- Reads the rest of a string up to its closing quote. -/
def scanString (mode : StringMode) (read : List Char) :
    List Char → Except Fault (String × List Char)
  | [] => .error .endInString
  | c :: rest =>
    if mode = .plain ∧ c = '"' then .ok (String.ofList read.reverse, rest)
    else match stepString mode read c rest with
      | .ok (mode, read) => scanString mode read rest
      | .error fault => .error fault

/-- Passes over the rest of a string. Escapes are checked one by one, surrogates are not. -/
def skipString : StringMode → List Char → Except Fault (List Char)
  | _, [] => .error .endInString
  | mode, c :: rest =>
    if mode = .plain ∧ c = '"' then .ok rest
    else match stepString mode [] c rest with
      | .ok (.backslash _, _) => skipString .plain rest
      | .ok (mode, _) => skipString mode rest
      | .error .loneSurrogate => skipString .plain rest
      | .error fault => .error fault

end PortNet.Json
