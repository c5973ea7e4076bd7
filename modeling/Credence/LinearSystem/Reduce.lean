import Credence.LinearSystem

/-!
# Row reduction

The rows are swept column by column. In each column the first row not yet settled with an entry
beyond the tolerance becomes the pivot row: it is divided by that entry, settled, and subtracted
from all other rows, earlier pivot rows included, so often that their entries in the column vanish.
A column in which there is no such row is passed over.
-/

namespace Credence

variable {α : Type} [Scalar α] {n : Nat}

/-- A sweep that has come some way: the pivot rows settled so far, each with its column, and the
other rows. -/
structure Sweep (α : Type) (n : Nat) where
  settled : List (Fin (n + 1) × Row α n)
  remaining : List (Row α n)

namespace Sweep

def ofRows (rows : List (Row α n)) : Sweep α n := ⟨[], rows⟩

def rows (s : Sweep α n) : List (Row α n) := s.settled.map (·.2) ++ s.remaining

def pivots (s : Sweep α n) : List (Fin (n + 1)) := s.settled.map (·.1)

/-- The rows before the first one whose entry in column `j` exceeds the tolerance, that row, and the
rows after it. -/
def findPivot (tolerance : α) (j : Fin (n + 1)) :
    List (Row α n) → Option (List (Row α n) × Row α n × List (Row α n))
  | [] => none
  | row :: rows =>
    if tolerance < Scalar.abs (row.get j) then some ([], row, rows)
    else (findPivot tolerance j rows).map fun (before, pivot, after) =>
      (row :: before, pivot, after)

/-- Fills the place of a row that has been moved to the front: the row that was in front goes
there. -/
def closeGap (before after : List (Row α n)) : List (Row α n) :=
  match before with
  | [] => after
  | first :: before => before ++ first :: after

/-- Makes the entry of a row in column `j` vanish. -/
def eliminate (pivot : Row α n) (j : Fin (n + 1)) (row : Row α n) : Row α n :=
  row.subtract (row.get j / pivot.get j) pivot

def step (tolerance : α) (s : Sweep α n) (j : Fin (n + 1)) : Sweep α n :=
  match findPivot tolerance j s.remaining with
  | none => s
  | some (before, row, after) =>
    let pivot := row.divide (row.get j)
    ⟨s.settled.map (fun (k, row) => (k, eliminate pivot j row)) ++ [(j, pivot)],
      (closeGap before after).map (eliminate pivot j)⟩

/-- Sweeps all columns, the constants like the others. -/
def run (tolerance : α) (rows : List (Row α n)) : Sweep α n :=
  (List.finRange (n + 1)).foldl (step tolerance) (ofRows rows)

end Sweep

/-- Brings the rows of a system to reduced echelon form, and notes the pivots. -/
def LinearSystem.reduce (s : LinearSystem α n) : LinearSystem α n :=
  let sweep := Sweep.run s.tolerance s.rows
  { s with rows := sweep.rows, pivots := some sweep.pivots }

/-- Reduces a system unless its pivots are known. -/
def LinearSystem.ensureReduced (s : LinearSystem α n) : LinearSystem α n :=
  if s.pivots.isSome then s else s.reduce

end Credence
