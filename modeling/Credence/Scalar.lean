import Credence.Binary64

/-!
# Scalars

What the entries of a linear system have to offer: arithmetic, an order that can be tested, and
absolute values. No law is asked for, so that doubles qualify with all their rounding, infinities
and undefined results; rational numbers calculate exactly.
-/

namespace Credence

/-- Numbers to calculate probabilities with. `ofFloat` is the scalar that a written probability
stands for. -/
class Scalar (α : Type) extends
    Zero α, One α, Sub α, Mul α, Div α, Neg α, LT α, LE α where
  abs : α → α
  ofFloat : Float → α
  decidableLT : DecidableLT α
  decidableLE : DecidableLE α

attribute [reducible, instance] Scalar.decidableLT Scalar.decidableLE

/-- Doubles, with the arithmetic of the machine. -/
instance : Scalar Float where
  zero := 0
  one := 1
  abs := Float.abs
  ofFloat := id
  decidableLT := inferInstance
  decidableLE := inferInstance

/-- Rational numbers, with exact arithmetic. -/
instance : Scalar Rat where
  zero := 0
  one := 1
  abs x := if x < 0 then -x else x
  ofFloat x := (Binary64.ofFloat x).toRat
  decidableLT := inferInstance
  decidableLE := inferInstance

end Credence
