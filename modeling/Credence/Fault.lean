/-!
# Faults

Some operations ask something of their caller: equal lengths, an index in range, a mask of at most
63 bits. A call that breaks such a condition yields a fault, and so does one whose answer would take
more memory than there can be. A fault is no verdict on the data; the errors that data can cause
have types of their own, and where both can occur the outcome is a `Failure`.
-/

namespace Credence

/-- The conditions on a call that can be broken. -/
inductive Fault where
  | maskTooWide
  | tooManyEvents
  | capacityOverflow
  | overfullCell (cell numEvents : Nat)
  | shiftTooFar
  | unequalBits
  | unequalLengths
  | indexOutOfRange (length index : Nat)
  | negativeTolerance
  | equationWidth
  | targetWidth
  deriving DecidableEq

/-- The name of a cell: its index in binary after a number sign. -/
def cellName (index : Nat) : String :=
  String.ofList ('#' :: Nat.toDigits 2 index)

def Fault.message : Fault → String
  | .maskTooWide => "Cell mask should fit in 63 bits"
  | .tooManyEvents => "At most 63 simple events are supported"
  | .capacityOverflow => "capacity overflow"
  | .overfullCell cell numEvents => s!"Cell {cellName cell} has more than {numEvents} events"
  | .shiftTooFar => "attempt to shift left with overflow"
  | .unequalBits => "Bit vectors should have equal length"
  | .unequalLengths => "assertion `left == right` failed"
  | .indexOutOfRange length index =>
    s!"index out of bounds: the len is {length} but the index is {index}"
  | .negativeTolerance => "Tolerance should be non-negative"
  | .equationWidth => "Equation should have one coefficient per cell"
  | .targetWidth => "Target should have one coefficient per cell"

/-- Why an operation has no result: its data were refused, or the call was at fault. -/
inductive Failure (ε : Type) where
  | refused (error : ε)
  | fault (fault : Fault)
  deriving DecidableEq

namespace Failure

def map {ε ε' : Type} (f : ε → ε') : Failure ε → Failure ε'
  | .refused error => .refused (f error)
  | .fault broken => .fault broken

end Failure

/-- An operation that can only be at fault, where data could be refused as well. -/
def liftFault {ε α : Type} (x : Except Fault α) : Except (Failure ε) α :=
  x.mapError .fault

/-- An operation that can only refuse its data, where a call could be at fault as well. -/
def liftRefusal {ε ε' α : Type} (f : ε → ε') (x : Except ε α) : Except (Failure ε') α :=
  x.mapError (.refused ∘ f)

/-- Where two operations in a row have a result, the first one has one. -/
theorem exists_ok_of_bind {ε α β : Type} {x : Except ε α} {f : α → Except ε β} {b : β}
    (h : (x >>= f) = .ok b) : ∃ a, x = .ok a ∧ f a = .ok b := by
  cases x with
  | error e => cases h
  | ok a => exact ⟨a, rfl, h⟩

end Credence
