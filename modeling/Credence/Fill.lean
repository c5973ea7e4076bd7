import Credence.Bits.Cursor
import Credence.Cell.Subsets

/-!
# Fill levels

A cell with `k` of the `n` events is contained in `2 ^ (n - k)` cells, one for each choice among
the other events. That is its maximum fill. Each selected cell fills all its subsets by one, and a
cell that reaches its maximum is saturated. The saturated cells are the coefficients of an
expression's equation.
-/

namespace Credence.Fill

/-- The maximum fill of one cell over `numEvents` events. It has to fit in a word. -/
def maximum (numEvents : Nat) (c : Cell) : Except Fault Nat :=
  if numEvents < c.size then .error (.overfullCell c.index numEvents)
  else if numEvents - c.size < 64 then .ok (1 <<< (numEvents - c.size))
  else .error .shiftTooFar

def maxima (cells : Array Cell) (numEvents : Nat) : Except Fault (Array Nat) :=
  cells.mapM (maximum numEvents)

/-- Fills one cell by one, unless it is full. -/
def raise (maxima levels : Array Nat) (c : Cell) : Array Nat :=
  if levels.getD c.index 0 < maxima.getD c.index 0 then levels.modify c.index (· + 1) else levels

/-- Fills all subsets of the selected cell number `i`. The cell itself has the largest index among
them. -/
def pour (maxima : Array Nat) (cells : Array Cell) (levels : Array Nat) (i : Nat) :
    Except Fault (Array Nat) :=
  match cells[i]? with
  | none => .error (.indexOutOfRange cells.size i)
  | some c =>
    -- no subset has a larger index than the cell
    if c.index < levels.size then .ok (c.subsets.foldl (raise maxima) levels)
    else .error (.indexOutOfRange levels.size c.index)

/-- The fill of each cell under a coverage, never beyond the given maxima. -/
def levels (maxima : Array Nat) (cells : Array Cell) (coverage : Bits) :
    Except Fault (Array Nat) :=
  if maxima.size ≠ cells.size then .error .unequalLengths
  else if coverage.length ≠ cells.size then .error .unequalLengths
  else coverage.indices.foldlM (pour maxima cells) (Array.replicate cells.size 0)

def saturated (levels maxima : Array Nat) : Except Fault Bits :=
  if levels.size ≠ maxima.size then .error .unequalLengths
  else .ok (Bits.ofBools (List.zipWith (· == ·) levels.toList maxima.toList))

def saturationRow (maxima : Array Nat) (cells : Array Cell) (coverage : Bits) :
    Except Fault Bits := do
  saturated (← levels maxima cells coverage) maxima

end Credence.Fill
