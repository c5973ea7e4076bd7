import Credence.LinearSystem.Reduce

/-!
# Solving for an expression

The row of the expression in question is cleared cell by cell: wherever its entry exceeds the
tolerance, the pivot row of that column is subtracted so often that the entry vanishes. If that
succeeds, what is left in the last place is minus the probability.
-/

namespace Credence

/-- What keeps a system from having an answer: its equations contradict each other, or they leave
open the probability of a cell that matters. -/
inductive Obstacle where
  | inconsistent
  | noPivot (column : Nat)
  deriving DecidableEq

variable {α : Type} [Scalar α] {n : Nat}

namespace LinearSystem

/-- Clears one column of a row against the pivot rows. -/
def clearColumn (s : LinearSystem α n) (pivots : List (Fin (n + 1))) (target : Row α n)
    (j : Fin (n + 1)) : Except (Failure Obstacle) (Row α n) :=
  let factor := target.get j
  if Scalar.abs factor ≤ s.tolerance then .ok target
  else
    match pivots.findIdx? (·.val = j.val) with
    | none => .error (.refused (.noPivot j.val))
    | some p =>
      match s.rows[p]? with
      | none => .error (.fault (.indexOutOfRange s.rows.length p))
      | some row => .ok (target.subtract factor row)

/-- Clears all columns of a row but the last, and reads off the answer. A pivot in the last column
is a row that says zero is one. -/
def clear (s : LinearSystem α n) (pivots : List (Fin (n + 1))) (target : Row α n) :
    Except (Failure Obstacle) α :=
  -- pivots ascend, so a pivot among the constants is the last one
  if pivots.getLast? = some (Fin.last n) then .error (.refused .inconsistent)
  else do
    let cleared ← ((List.finRange n).map Fin.castSucc).foldlM (s.clearColumn pivots) target
    return -cleared.get (Fin.last n)

/-- The probability of the cells in `target`, and the system as it is left: reduced, unless the
target does not fit it. -/
def solveFor (s : LinearSystem α n) (target : Bits) :
    Except (Failure Obstacle) α × LinearSystem α n :=
  if target.length = n then
    let s := s.ensureReduced
    (s.clear (s.pivots.getD []) (Row.ofBits target 0), s)
  else (.error (.fault .targetWidth), s)

end LinearSystem
end Credence
