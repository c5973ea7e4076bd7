import Credence.Bits
import Credence.Scalar

/-!
# Linear systems

A system of linear equations for the probabilities of `n` cells. A row has one coefficient per cell
and the equation's constant after them. The first equation says that all cells together have
probability one. Entries whose absolute value does not exceed the tolerance count as zero.
-/

namespace Credence

/-- The coefficients of an equation, and its constant in the last place. -/
abbrev Row (α : Type) (n : Nat) : Type := Vector α (n + 1)

/-- Equations for the probabilities of `n` cells. Once the rows are reduced, `pivots` holds the
pivot column of each leading row. -/
structure LinearSystem (α : Type) (n : Nat) where
  rows : List (Row α n)
  tolerance : α
  pivots : Option (List (Fin (n + 1)))

variable {α : Type} [Scalar α] {n : Nat}

/-- The row with the given bits as coefficients, and a constant. -/
def Row.ofBits (coefficients : Bits) (constant : α) : Row α n :=
  Vector.ofFn fun j =>
    if j.val = n then constant else if coefficients.contains j then 1 else 0

def Row.divide (row : Row α n) (divisor : α) : Row α n := row.map (· / divisor)

def Row.subtract (row : Row α n) (factor : α) (other : Row α n) : Row α n :=
  Vector.zipWith (fun x y => x - factor * y) row other

namespace LinearSystem

/-- The system of which only the first equation is known. -/
def new (tolerance : α) : Except Fault (LinearSystem α n) :=
  if 0 ≤ tolerance then .ok ⟨[Vector.replicate (n + 1) 1], tolerance, none⟩
  else .error .negativeTolerance

/-- Adds the equation that the selected cells together have the given probability. -/
def push (s : LinearSystem α n) (coefficients : Bits) (constant : α) :
    Except Fault (LinearSystem α n) :=
  if coefficients.length = n then
    .ok { s with rows := s.rows ++ [Row.ofBits coefficients constant], pivots := none }
  else .error .equationWidth

def ofEquations (tolerance : α) (equations : List (Bits × α)) :
    Except Fault (LinearSystem α n) := do
  equations.foldlM (fun s equation => s.push equation.1 equation.2) (← new tolerance)

end LinearSystem
end Credence
