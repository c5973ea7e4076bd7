import Credence.Bits
import Credence.Cell
import Credence.Token

/-!
# Sample spaces

The simple events span a sample space: all cells over them, and for each event the row of those
cells that contain it. A bit vector over the space has one bit per cell, in the order of indices.
-/

namespace Credence

/-- Why a list of labels spans no sample space. -/
inductive EventListError where
  | noEvents
  | tooManyEvents (count : Nat)
  | emptyLabel
  | duplicateEvent (label : String)
  deriving DecidableEq

def EventListError.message : EventListError → String
  | .noEvents => "the list of simple events is empty"
  | .tooManyEvents count =>
    s!"too many simple events: {count} (at most {Cell.maxEvents} are supported)"
  | .emptyLabel => "simple event labels must be non-empty"
  | .duplicateEvent label => "duplicate simple event: " ++ Text.quoted label

/-- The simple events by their labels, the cells over them, and the indicator of each event: the
cells that contain it. -/
structure SampleSpace where
  events : List String
  cells : Array Cell
  indicators : List Bits

/-- For each of the first `numEvents` events, whether it belongs to each of the given cells. -/
def indicatorsOver (numEvents : Nat) (cells : List Cell) : List Bits :=
  (List.range numEvents).map fun event => Bits.ofBools (cells.map (·.contains event))

namespace SampleSpace

/-- Finds the first label that is empty or equal to an earlier one. -/
def checkLabels (earlier : List String) : List String → Except EventListError Unit
  | [] => .ok ()
  | label :: labels =>
    if label.isEmpty then .error .emptyLabel
    else if label ∈ earlier then .error (.duplicateEvent label)
    else checkLabels (label :: earlier) labels

/-- An event list is usable when it has between one and 63 labels, none of them empty or repeated.
The number of labels is looked at first. -/
def checkEvents (events : List String) : Except EventListError Unit :=
  if events.isEmpty then .error .noEvents
  else if Cell.maxEvents < events.length then .error (.tooManyEvents events.length)
  else checkLabels [] events

def span (events : List String) : Except (Failure EventListError) SampleSpace := do
  liftRefusal id (checkEvents events)
  let cells ← liftFault (Cell.enumerate events.length)
  return { events, cells, indicators := indicatorsOver events.length cells.toList }

def numEvents (space : SampleSpace) : Nat := space.events.length

def numCells (space : SampleSpace) : Nat := space.cells.size

def eventIndex (space : SampleSpace) (label : String) : Option Nat := space.events.idxOf? label

def indicator (space : SampleSpace) (label : String) : Except (Failure UnknownEvent) Bits :=
  match space.eventIndex label with
  | none => .error (.refused ⟨label⟩)
  | some i =>
    match space.indicators[i]? with
    | none => .error (.fault (.indexOutOfRange space.indicators.length i))
    | some indicator => .ok indicator

end SampleSpace
end Credence
