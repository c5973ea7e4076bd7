import Credence.Binary64

/-!
# Decimals

A decimal is a natural number times a power of ten: the value that a row of digits with a point
in it stands for.
-/

namespace Credence

/-- The number `digits * 10 ^ exponent`. -/
structure Decimal where
  digits : Nat
  exponent : Int
  deriving DecidableEq

namespace Decimal

def powTen (k : Nat) : Nat := Nat.pow 10 k

def toFloat (d : Decimal) : Float :=
  Binary64.nearest (d.digits * powTen d.exponent.toNat) (powTen (-d.exponent).toNat)

/-- Writes a decimal without an exponent: the digits followed by zeros, or with a point among
them and at least one digit in front of it. -/
def positional (d : Decimal) : List Char :=
  let digits := Nat.toDigits 10 d.digits
  let places := (-d.exponent).toNat
  if places = 0 then digits ++ List.replicate d.exponent.toNat '0'
  else
    let padded := List.replicate (places + 1 - digits.length) '0' ++ digits
    let whole := padded.length - places
    padded.take whole ++ '.' :: padded.drop whole

end Decimal
end Credence
