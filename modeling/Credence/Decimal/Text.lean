import Credence.Decimal.Shortest

/-!
# The text of a number

Probabilities, tolerances and answers are written as the shortest decimal that reads back, never
with an exponent, and without a point when they are whole. Zero keeps its sign.
-/

namespace Credence

namespace Binary64

def signText (negative : Bool) : List Char :=
  if negative then ['-'] else []

def magnitudeText (significand : Nat) (exponent : Int) : List Char :=
  if significand = 0 then ['0'] else (Decimal.shortest significand exponent).positional

/-- The text of a double. What is not a number has no sign. -/
def text : Binary64 → List Char
  | .nan => ['N', 'a', 'N']
  | .infinite negative => signText negative ++ ['i', 'n', 'f']
  | .finite negative significand exponent =>
    signText negative ++ magnitudeText significand exponent

end Binary64

def numberText (x : Float) : String :=
  String.ofList (Binary64.ofFloat x).text

end Credence
