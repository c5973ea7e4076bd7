import Credence.Decimal

/-!
# Numerals

The written numbers an expression may carry: digits, or digits around a point. At least one digit
is needed, and a point counts only if a digit follows it.
-/

namespace Credence

/-- A written number: the digits before the point and those after it. Without digits after it
there is no point. -/
structure Numeral where
  whole : List Char
  fraction : List Char
  deriving DecidableEq

namespace Numeral

def ofDigits (digits : List Char) : Nat :=
  digits.foldl (fun n c => 10 * n + (c.toNat - '0'.toNat)) 0

def text (n : Numeral) : List Char :=
  match n.fraction with
  | [] => n.whole
  | fraction => n.whole ++ '.' :: fraction

/-- The value of a numeral: all its digits, scaled down by the number of those after the point. -/
def value (n : Numeral) : Decimal where
  digits := ofDigits (n.whole ++ n.fraction)
  exponent := -n.fraction.length

/-- A numeral without a point, if there is a digit in it. -/
def ofWhole (whole rest : List Char) : Option (Numeral × List Char) :=
  if whole.isEmpty then none else some (⟨whole, []⟩, rest)

/-- The longest numeral at the front of a text, and what follows it. -/
def scan (text : List Char) : Option (Numeral × List Char) :=
  let whole := text.takeWhile Char.isDigit
  match text.dropWhile Char.isDigit with
  | '.' :: after =>
    let fraction := after.takeWhile Char.isDigit
    if fraction.isEmpty then ofWhole whole ('.' :: after)
    else some (⟨whole, fraction⟩, after.dropWhile Char.isDigit)
  | rest => ofWhole whole rest

end Numeral
end Credence
