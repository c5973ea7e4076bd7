import Credence.Decimal

/-!
# Shortest decimals

Of all decimals that read back as a given double, the one with the fewest digits, and of those the
one nearest to the double. The numbers that read back form an interval around the double; grids of
step `10 ^ e` are tried from a coarse one down, and the first that has a point in the interval has
it next to the double itself.
-/

namespace Credence

/-- The numbers that round to a double. The bounds and the double itself are counted in units of
`2 ^ exponent`; the bounds belong to the interval if it is `closed`. -/
structure RoundingInterval where
  lower : Nat
  center : Nat
  upper : Nat
  exponent : Int
  closed : Bool

namespace RoundingInterval

/-- The interval around a positive double, in quarters of its last place: half a place to either
side. At a power of two the doubles below lie twice as dense, so below it is a quarter. A number
half way rounds to the even significand, which therefore has both bounds. -/
def ofFinite (significand : Nat) (exponent : Int) : RoundingInterval where
  lower :=
    if significand = Binary64.leadingOne ∧ Binary64.minExponent < exponent then 4 * significand - 1
    else 4 * significand - 2
  center := 4 * significand
  upper := 4 * significand + 2
  exponent := exponent - 2
  closed := significand % 2 = 0

/-- Two factors that bring grid points of step `10 ^ e` and units of the interval to one scale:
`p` steps are as much as `u` units when `p * stepFactor = u * unitFactor`. -/
def stepFactor (i : RoundingInterval) (e : Int) : Nat :=
  Decimal.powTen e.toNat <<< (-i.exponent).toNat

@[inherit_doc stepFactor]
def unitFactor (i : RoundingInterval) (e : Int) : Nat :=
  Decimal.powTen (-e).toNat <<< i.exponent.toNat

/-- Whether `point * 10 ^ e` lies in the interval. -/
def contains (i : RoundingInterval) (e : Int) (point : Nat) : Bool :=
  let p := point * i.stepFactor e
  let lower := i.lower * i.unitFactor e
  let upper := i.upper * i.unitFactor e
  if i.closed then lower ≤ p && p ≤ upper else lower < p && p < upper

/-- The last grid point of step `10 ^ e` that does not exceed the double. -/
def floor (i : RoundingInterval) (e : Int) : Nat :=
  i.center * i.unitFactor e / i.stepFactor e

/-- The point of the grid of step `10 ^ e` in the interval that is nearest to the double. Of two
equally near points it is the upper one. -/
def gridPoint? (i : RoundingInterval) (e : Int) : Option Nat :=
  let below := i.floor e
  let past := i.center * i.unitFactor e - below * i.stepFactor e
  match i.contains e below, i.contains e (below + 1) with
  | true, true => if 2 * past < i.stepFactor e then some below else some (below + 1)
  | true, false => some below
  | false, true => some (below + 1)
  | false, false => none

/-- Tries grids from step `10 ^ e` down, at most `steps` of them; the one after those is taken as
it is. -/
def search (i : RoundingInterval) : (steps : Nat) → (e : Int) → Decimal
  | 0, e => ⟨i.floor e, e⟩
  | steps + 1, e =>
    match i.gridPoint? e with
    | some point => ⟨point, e⟩
    | none => i.search steps (e - 1)

/-- The finest grid worth trying: the double is a point of it. -/
def finest (i : RoundingInterval) : Int :=
  min i.exponent 0

/-- A grid whose step exceeds the whole interval, from the bit length of the double and the
logarithm of two. -/
def coarsest (i : RoundingInterval) : Int :=
  (i.center.log2 + 2 + i.exponent) * 30103 / 100000 + 2

def shortest (i : RoundingInterval) : Decimal :=
  i.search (i.coarsest - i.finest).toNat i.coarsest

end RoundingInterval

/-- The shortest decimal that reads back as the positive double `significand * 2 ^ exponent`. -/
def Decimal.shortest (significand : Nat) (exponent : Int) : Decimal :=
  (RoundingInterval.ofFinite significand exponent).shortest

end Credence
