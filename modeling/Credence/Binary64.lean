/-!
# Double precision numbers

A finite double is a significand times a power of two. This module takes a `Float` apart into
those two numbers, and finds the double nearest to a fraction. Both are arithmetic on natural
numbers, so what they say can be calculated with.
-/

namespace Credence

/-- What a double stands for. A finite one is `significand * 2 ^ exponent`, with its sign, which
zero has too. -/
inductive Binary64 where
  | nan
  | infinite (negative : Bool)
  | finite (negative : Bool) (significand : Nat) (exponent : Int)
  deriving DecidableEq

namespace Binary64

def minExponent : Int := -1074

/-- The leading one of a full significand, just above the 52 bits of the fraction. -/
def leadingOne : Nat := 1 <<< 52

/-- The bit pattern of positive infinity: all ones in the exponent, nothing in the fraction. -/
def infinityBits : Nat := 0x7ff * leadingOne

/-- Takes a double apart. The top bit is the sign, the next eleven the exponent, the rest the
fraction. Numbers with an exponent field have a leading one in front of the fraction. -/
def ofFloat (x : Float) : Binary64 :=
  let bits : Nat := x.toBits.toNat
  let negative := decide (1 <<< 63 ≤ bits)
  let field : Nat := bits / leadingOne % 0x800
  let fraction := bits % leadingOne
  if field = 0x7ff then
    if fraction = 0 then .infinite negative else .nan
  else if field = 0 then .finite negative fraction minExponent
  else .finite negative (leadingOne + fraction) ((field : Int) - 1 + minExponent)

/-- The exact value of a double. What is not finite has none, and counts as zero. -/
def toRat : Binary64 → Rat
  | .finite negative significand exponent =>
    let magnitude : Rat := significand * (2 : Rat) ^ exponent
    if negative then -magnitude else magnitude
  | _ => 0

/-! ## Rounding -/

/-- The integer nearest to a fraction; half way between two integers, the even one. -/
def roundHalfEven (num den : Nat) : Nat :=
  let quotient := num / den
  let twice := 2 * (num % den)
  if twice < den ∨ (twice = den ∧ quotient % 2 = 0) then quotient else quotient + 1

/-- The fraction `num / den` divided by `2 ^ e`, as a numerator and a denominator. -/
def scale (num den : Nat) (e : Int) : Nat × Nat :=
  (num <<< (-e).toNat, den <<< e.toNat)

/-- The exponent at which a positive fraction has a significand of 53 bits. Two bit lengths give
it up to one, and a division decides. -/
def fullExponent (num den : Nat) : Int :=
  let e : Int := num.log2 - den.log2 - 53
  let (n, d) := scale num den e
  if n / d < 2 * leadingOne then e else e + 1

/-- The exponent at which a positive fraction is rounded: that of a full significand, but never
below the smallest. -/
def roundingExponent (num den : Nat) : Int :=
  max (fullExponent num den) minExponent

/-- The bit pattern of the double nearest to a fraction. Each exponent after the smallest takes up
`leadingOne` further patterns, so a significand that rounds up to a power of two carries into the
exponent by itself. Patterns past the finite ones stand for infinity. -/
def nearestBits (num den : Nat) : Nat :=
  if num = 0 then 0
  else
    let e := roundingExponent num den
    let (n, d) := scale num den e
    min ((e - minExponent).toNat * leadingOne + roundHalfEven n d) infinityBits

/-- The double nearest to a non-negative fraction; half way between two doubles, the one whose
significand is even. -/
def nearest (num den : Nat) : Float :=
  Float.ofBits (UInt64.ofNat (nearestBits num den))

end Binary64
end Credence
