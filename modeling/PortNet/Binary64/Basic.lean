namespace PortNet.Binary64

/-- The number of magnitudes from one power of two up to the next. -/
def binade : Nat := Nat.pow 2 52

/-- One more than the place of the largest finite binary64 magnitude in increasing order. -/
def places : Nat := 2047 * binade

end PortNet.Binary64

namespace PortNet

/-- A finite binary64 number. The magnitudes are numbered from zero upward without gaps, so
that neighbours differ by one; the significand and the exponent are read off that place. -/
structure Binary64 where
  negative : Bool
  place : Fin Binary64.places
deriving DecidableEq

namespace Binary64

/-- The place of zero. -/
def zero : Fin places := ⟨0, by decide⟩

/-- Whole number `m` such that the magnitude at `place` is `m * 2 ^ exponent place`. -/
def significand (place : Nat) : Nat :=
  if place < binade then place else binade + place % binade

def exponent (place : Nat) : Int :=
  if place < binade then -1074 else (place / binade : Nat) - 1075

/-- The magnitude at `place` as an exact fraction. -/
def fraction (place : Nat) : Nat × Nat :=
  match exponent place with
  | .ofNat e => (significand place * Nat.pow 2 e, 1)
  | .negSucc e => (significand place, Nat.pow 2 (e + 1))

/-- The quotient rounded to the nearest whole number, a half to the even one. -/
def roundQuotient (num den : Nat) : Nat :=
  let quotient := num / den
  let twice := 2 * (num % den)
  if twice < den then quotient
  else if den < twice then quotient + 1
  else quotient + quotient % 2

/-- The quotient in units of `2 ^ e`, rounded. -/
def inUnits (num den : Nat) : Int → Nat
  | .ofNat e => roundQuotient num (den * Nat.pow 2 e)
  | .negSucc e => roundQuotient (num * Nat.pow 2 (e + 1)) den

/-- The exponent of the unit in the last place of a positive quotient: the quotient has 53 bits
before the point in this unit, or fewer at the bottom of the range. -/
def unitExponent (num den : Nat) : Int :=
  let guess : Int := (num.log2 : Int) - den.log2 - 53
  let low := max guess (-1074)
  let wide : Bool := match low with
    | .ofNat e => den * Nat.pow 2 e * (2 * binade) ≤ num
    | .negSucc e => den * (2 * binade) ≤ num * Nat.pow 2 (e + 1)
  if wide then low + 1 else low

/-- The place of the magnitude nearest to `num / den`, halves to the even place; nothing when
the quotient lies beyond the largest finite magnitude. -/
def nearest (num den : Nat) : Option (Fin places) :=
  if num = 0 then some zero
  else
    let e := unitExponent num den
    let place := (e + 1074).toNat * binade + inUnits num den e
    if h : place < places then some ⟨place, h⟩ else none

/-- Ten to the power `n`, rounded. -/
def tenPower (n : Nat) : Option (Fin places) := nearest (Nat.pow 10 n) 1

def product (a b : Fin places) : Option (Fin places) :=
  let (n₁, d₁) := fraction a
  let (n₂, d₂) := fraction b
  nearest (n₁ * n₂) (d₁ * d₂)

def quotient (a b : Fin places) : Option (Fin places) :=
  let (n₁, d₁) := fraction a
  let (n₂, d₂) := fraction b
  nearest (n₁ * d₂) (d₁ * n₂)

/-- The largest power of ten that is a finite magnitude. -/
def tenLimit : Nat := 308

/-- Divides by a power of ten in steps that each stay within the range, rounding every step. -/
def shrink (a : Fin places) (n : Nat) : Option (Fin places) :=
  if n ≤ tenLimit then do quotient a (← tenPower n)
  else if a.val = 0 then some a
  else do
    let b ← quotient a (← tenPower tenLimit)
    shrink b (n - tenLimit)
termination_by n
decreasing_by simp only [tenLimit] at *; omega

/-- Multiplies by a power of ten, rounding after each multiplication or division. Nothing when
the result leaves the range. -/
def scale (a : Fin places) : Int → Option (Fin places)
  | .ofNat n =>
    if n ≤ tenLimit then do product a (← tenPower n)
    else if a.val = 0 then some a
    else none
  | .negSucc n => shrink a (n + 1)

end Binary64
end PortNet
