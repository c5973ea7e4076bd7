import Credence.Inference.Note
import Credence.LinearSystem.Solve
import Credence.Logged

/-!
# Equations with one unknown

Each expression makes an equation: its saturated cells together have its probability. All but one
of the probabilities are known. The known equations make up a linear system, and the remaining one
is solved for.
-/

namespace Credence

/-- Why equations are not solved. -/
inductive SystemError (α : Type) where
  | invalidTolerance (tolerance : α)
  | missingUnknown
  /-- At least these two probabilities are not known. -/
  | multipleUnknowns (first second : Nat)
  /-- The known probabilities contradict each other, or do not determine the unknown one. -/
  | underdetermined
  deriving DecidableEq

def SystemError.message : SystemError Float → String
  | .invalidTolerance tolerance =>
    s!"tolerance must be a non-negative number, got {numberText tolerance}"
  | .missingUnknown => "every expression has a known probability, nothing to solve for"
  | .multipleUnknowns first second =>
    s!"expressions #{first} and #{second} both lack a known probability"
  | .underdetermined => "insufficient or conflicting information"

variable {α : Type} [Scalar α] {n : Nat}

def checkTolerance (tolerance : α) : Except (SystemError α) α :=
  if 0 ≤ tolerance then .ok tolerance else .error (.invalidTolerance tolerance)

/-- The index of the only probability that is not known. -/
def findUnknown {α : Type} (probabilities : List (Option α)) : Except (SystemError α) Nat :=
  match (probabilities.zipIdx.filter (·.1.isNone)).map (·.2) with
  | [] => .error .missingUnknown
  | [index] => .ok index
  | first :: second :: _ => .error (.multipleUnknowns first second)

/-- The rows whose probability is known, with it. -/
def knownEquations {α : Type} (rows : List Bits) (probabilities : List (Option α)) :
    List (Bits × α) :=
  (rows.zip probabilities).filterMap fun (row, probability) => probability.map (row, ·)

/-- The notes of a reduction, if there was one between two states of a system. -/
def reductionNotes (before after : LinearSystem α n) : List (Note α) :=
  match before.pivots, after.pivots with
  | none, some pivots =>
    pivots.zipIdx.map (fun (column, row) => .pivot row column) ++
      [.reduced after.rows.length (pivots.map (·.val))]
  | _, _ => []

def Obstacle.note {α : Type} : Obstacle → Note α
  | .inconsistent => .inconsistent
  | .noPivot column => .noPivot column

/-- Solves a system for an expression. Whatever keeps it from having an answer, the expression is
underdetermined. -/
def solveSystem (s : LinearSystem α n) (target : Bits) :
    Logged (Note α) (Failure (SystemError α)) α := do
  let (outcome, reduced) := s.solveFor target
  .leave (reductionNotes s reduced)
  match outcome with
  | .ok probability => return probability
  | .error (.fault fault) => .fail (.fault fault)
  | .error (.refused obstacle) =>
    .leave [obstacle.note]
    .fail (.refused .underdetermined)

/-- The probability of the one row that has none, and how it was found. -/
def solveEquationsLogged (numCells : Nat) (rows : List Bits) (probabilities : List (Option α))
    (tolerance : α) : Logged (Note α) (Failure (SystemError α)) α := do
  if rows.length ≠ probabilities.length then .fail (.fault .unequalLengths)
  let tolerance ← .silent (liftRefusal id (checkTolerance tolerance))
  let unknown ← .silent (liftRefusal id (findUnknown probabilities))
  let equations := knownEquations rows probabilities
  let system : LinearSystem α numCells ←
    .silent (liftFault (LinearSystem.ofEquations tolerance equations))
  match rows[unknown]? with
  | none => .fail (.fault (.indexOutOfRange rows.length unknown))
  | some target => solveSystem system target

def solveEquations (numCells : Nat) (rows : List Bits) (probabilities : List (Option α))
    (tolerance : α) : Except (Failure (SystemError α)) α :=
  (solveEquationsLogged numCells rows probabilities tolerance).result

end Credence
