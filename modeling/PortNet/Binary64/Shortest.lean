import PortNet.Binary64.Basic

namespace PortNet.Binary64

/-- The decimal number `digits * 10 ^ power`. -/
structure Decimal where
  digits : Nat
  power : Int
deriving DecidableEq, Repr

/-- Ends of the interval of reals that round to the magnitude at `place`, and the magnitude
itself, all three as numerators over one denominator. The interval below a power of two is
half as wide. -/
structure Rounding where
  low : Nat
  value : Nat
  high : Nat
  unit : Nat
  closed : Bool

def rounding (place : Nat) : Rounding :=
  let m := significand place
  let below := if m = binade ∧ place ≠ binade then 1 else 2
  let (factor, unit) := match exponent place with
    | .ofNat e => (Nat.pow 2 e, 4)
    | .negSucc e => (1, 4 * Nat.pow 2 (e + 1))
  ⟨(4 * m - below) * factor, 4 * m * factor, (4 * m + 2) * factor, unit, m % 2 = 0⟩

/-- Whether `num / den` rounds to the magnitude. -/
def Rounding.admits (r : Rounding) (num den : Nat) : Bool :=
  let n := num * r.unit
  if r.closed then r.low * den ≤ n && n ≤ r.high * den
  else r.low * den < n && n < r.high * den

/-- Decimal exponent of the leading digit of a positive quotient. -/
def leadingPower (num den : Nat) : Int :=
  if den ≤ num then ((Nat.toDigits 10 (num / den)).length : Int) - 1
  else -((Nat.toDigits 10 ((den - 1) / num)).length : Int)

/-- The nearer of the two neighbours of the magnitude on the grid of multiples of `10 ^ power`, if
one of them rounds to the magnitude; of two equally near ones the even one. -/
def Rounding.onGrid (r : Rounding) (power : Int) : Option Nat :=
  let (up, down) := match power with
    | .ofNat e => (Nat.pow 10 e, 1)
    | .negSucc e => (1, Nat.pow 10 (e + 1))
  let num := r.value * down
  let den := r.unit * up
  let below := num / den
  let hits := [below, below + 1].filter (fun d => r.admits (d * up) down)
  match hits with
  | [] => none
  | [d] => some d
  | _ => some (roundQuotient num den)

/-- The first grid, from coarse to fine, on which a neighbour rounds to the magnitude. -/
def Rounding.firstHit (r : Rounding) (leading : Int) : Nat → Nat → Decimal
  | _, 0 => ⟨0, 0⟩
  | count, left + 1 =>
    let power := leading - count
    match r.onGrid power with
    | some d => ⟨d, power⟩
    | none => r.firstHit leading (count + 1) left

/-- The decimal of fewest digits that rounds to the magnitude at `place`; of those the nearest.
Seventeen digits always suffice. -/
def shortest (place : Nat) : Decimal :=
  if place = 0 then ⟨0, 0⟩
  else
    let r := rounding place
    r.firstHit (leadingPower r.value r.unit) 0 17

/-- The digits without trailing zeros and the exponent of the first of them. -/
def Decimal.scientific (d : Decimal) : List Char × Int :=
  let all := Nat.toDigits 10 d.digits
  let kept := (all.reverse.dropWhile (· = '0')).reverse
  (if kept.isEmpty then ['0'] else kept, d.power + all.length - 1)

end PortNet.Binary64
