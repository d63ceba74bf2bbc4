import PortNet.Json.Basic
import PortNet.Json.Fault

namespace PortNet.Json

/-- A number as it is spelled: digits before and after the point, and the exponent with its
sign. -/
structure Numeral where
  negative : Bool
  whole : List Char
  places : List Char
  exponent : Option (Bool × List Char)

namespace Numeral

/-- The digits at the front, of which there must be at least one. -/
def scanDigits (cs : List Char) : Except Fault (List Char × List Char) :=
  match cs.takeWhile Char.isDigit with
  | [] => .error (if cs.isEmpty then .endInValue else .invalidNumber)
  | digits => .ok (digits, cs.dropWhile Char.isDigit)

def scanPlaces : List Char → Except Fault (List Char × List Char)
  | '.' :: rest => scanDigits rest
  | cs => .ok ([], cs)

def scanExponent : List Char → Except Fault (Option (Bool × List Char) × List Char)
  | c :: rest =>
    if c = 'e' ∨ c = 'E' then do
      let (negative, rest) := match rest with
        | '-' :: r => (true, r)
        | '+' :: r => (false, r)
        | r => (false, r)
      let (digits, rest) ← scanDigits rest
      .ok (some (negative, digits), rest)
    else .ok (none, c :: rest)
  | [] => .ok (none, [])

/-- A zero at the front of the whole part stands alone. -/
def scan (cs : List Char) : Except Fault (Numeral × List Char) := do
  let (negative, cs) := match cs with
    | '-' :: rest => (true, rest)
    | _ => (false, cs)
  let (whole, cs) ← scanDigits cs
  if whole.head? = some '0' ∧ 1 < whole.length then .error .invalidNumber
  let (places, cs) ← scanPlaces cs
  let (exponent, cs) ← scanExponent cs
  .ok (⟨negative, whole, places, exponent⟩, cs)

def digitValue (c : Char) : Nat := c.toNat - 48

def digitsValue (digits : List Char) : Nat :=
  digits.foldl (fun n c => 10 * n + digitValue c) 0

/-- One more than the largest whole number in 64 bits. -/
def wordLimit : Nat := Nat.pow 2 64

/-- Appends digits to a whole number while it fits 64 bits; also the number of digits left over. -/
def absorb (n : Nat) : List Char → Nat × Nat
  | [] => (n, 0)
  | c :: cs =>
    let next := 10 * n + digitValue c
    if next < wordLimit then absorb next cs else (n, cs.length + 1)

/-- The leading digits as a whole number in 64 bits, and the power of ten that the digits after
them and the place of the point leave to it. -/
def leading (n : Numeral) : Nat × Int :=
  let (whole, dropped) := absorb 0 n.whole
  let (all, unread) := absorb whole n.places
  (all, (dropped : Int) - (n.places.length - unread : Nat))

/-- Exponents beyond this one are not computed with. -/
def exponentLimit : Nat := 2147483647

/-- The double that a numeral stands for: the leading digits are rounded first, then scaled. -/
def toDouble (n : Numeral) : Except Fault Binary64 := do
  let (significand, power) := n.leading
  let scaled (power : Int) : Except Fault Binary64 :=
    match (Binary64.nearest significand 1).bind (Binary64.scale · power) with
    | some place => .ok ⟨n.negative, place⟩
    | none => .error .numberOutOfRange
  match n.exponent with
  | none => scaled power
  | some (negative, digits) =>
    let e := digitsValue digits
    if exponentLimit < e then
      if significand ≠ 0 ∧ ¬negative then .error .numberOutOfRange else .ok ⟨n.negative, Binary64.zero⟩
    else scaled (if negative then power - e else power + e)

/-- A numeral without point and exponent is a whole number if it fits 64 bits, with its sign if
it has one; minus zero does not. -/
def toNumber (n : Numeral) : Except Fault Number :=
  let value := digitsValue n.whole
  if n.places.isEmpty ∧ n.exponent.isNone ∧ ¬n.negative ∧ value < wordLimit then
    .ok (.integer value)
  else if n.places.isEmpty ∧ n.exponent.isNone ∧ n.negative ∧ 0 < value ∧ 2 * value ≤ wordLimit then
    .ok (.integer (-value))
  else do .ok (.double (← n.toDouble))

end Numeral
end PortNet.Json
