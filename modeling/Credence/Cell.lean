import Credence.Fault

/-!
# Cells

A cell is a set of simple events. With `n` simple events there are `2 ^ n` cells, and they are
numbered in binary: bit `k` of a cell's index is set when event `k` belongs to the cell. At most 63
events fit in a cell, and an array has room for the cells over at most 59.
-/

namespace Credence

/-- A set of simple events, by their positions in the event list. -/
structure Cell where
  mask : BitVec 63
  deriving DecidableEq

namespace Cell

abbrev maxEvents : Nat := 63

def empty : Cell := ⟨0⟩

/-! ## Construction -/

/-- The cell with the given mask, which must not use the top bit of the word. -/
def ofMask (mask : BitVec 64) : Except Fault Cell :=
  if mask.getLsbD maxEvents then .error .maskTooWide else .ok ⟨mask.setWidth maxEvents⟩

def addEvent (mask : BitVec 64) (event : Nat) : Except Fault (BitVec 64) :=
  if event < 64 then .ok (mask ||| BitVec.twoPow 64 event) else .error .shiftTooFar

/-- The cell of exactly the given events, in whatever order and however often they are named. -/
def ofEvents (events : List Nat) : Except Fault Cell := do
  ofMask (← events.foldlM addEvent 0)

/-- The cell with a given index, which must be below `2 ^ 63`. -/
def ofIndex (index : Nat) : Cell := ⟨BitVec.ofNat maxEvents index⟩

/-- A cell takes a word of memory. -/
def byteSize : Nat := 8

/-- An array takes at most this many bytes. -/
def maxBytes : Nat := 1 <<< 63 - 1

/-- All cells over `n` events, in the order of their indices. The events are counted first, and then
there has to be room for the cells. -/
def enumerate (n : Nat) : Except Fault (Array Cell) :=
  if maxEvents < n then .error .tooManyEvents
  else if maxBytes < byteSize * 1 <<< n then .error .capacityOverflow
  else .ok ((Array.range (1 <<< n)).map ofIndex)

/-! ## Observation -/

def index (c : Cell) : Nat := c.mask.toNat

def size (c : Cell) : Nat := c.mask.cpop.toNat

def isEmpty (c : Cell) : Bool := c.mask = 0

/-- Whether an event belongs to a cell. Beyond the 63rd none does. -/
def contains (c : Cell) (event : Nat) : Bool := c.mask.getLsbD event

/-- Whether every event of one cell belongs to another. -/
def isSubsetOf (c d : Cell) : Bool := c.mask &&& ~~~d.mask = 0

def events (c : Cell) : List Nat := (List.range maxEvents).filter c.contains

/-- Cells are ordered by their indices. -/
instance : Ord Cell where
  compare c d := compare c.index d.index

/-! ## Text -/

/-- A cell by its index in binary. -/
def text (c : Cell) : String := cellName c.index

/-- A cell as the set of its events' labels. Events that have no label are left out. -/
def labelText (c : Cell) (labels : List String) : String :=
  "\x7b" ++ ", ".intercalate (c.events.filterMap (labels[·]?)) ++ "\x7d"

end Cell
end Credence
