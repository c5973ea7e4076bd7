import Credence.Bits
import Credence.Cell

/-!
# Subsets of a cell

The subsets of a cell can be visited from the cell itself down to the empty one: to step from one
to the next, subtract one from its mask, which clears the lowest event and sets all below it, and
keep of those only what belongs to the cell.
-/

namespace Credence

namespace Cell

/-- The largest subset of `c` below its subset `s`; there is none below the empty cell. -/
def subsetBelow (c s : Cell) : Option Cell :=
  if s.isEmpty then none else some ⟨(s.mask - 1) &&& c.mask⟩

theorem index_lt_of_subsetBelow {c s t : Cell} (h : c.subsetBelow s = some t) :
    t.index < s.index := by
  simp only [subsetBelow, isEmpty, decide_eq_true_eq, Option.ite_none_left_eq_some,
    Option.some.injEq] at h
  obtain ⟨hs, rfl⟩ := h
  rw [index, BitVec.toNat_and]
  exact Nat.lt_of_le_of_lt Nat.and_le_left (Word.toNat_sub_one_lt hs)

/-- A walk through the subsets of a cell: the one to come next, until the empty cell is past. -/
structure SubsetWalk where
  cell : Cell
  upcoming : Option Cell
  deriving DecidableEq

namespace SubsetWalk

/-- The subset to come next, if there is one, and the rest of the walk. -/
def next (w : SubsetWalk) : Option Cell × SubsetWalk :=
  (w.upcoming, { w with upcoming := w.upcoming.bind w.cell.subsetBelow })

/-- What is left to visit: one more than the index of the subset to come next. -/
def weight (w : SubsetWalk) : Nat :=
  match w.upcoming with
  | none => 0
  | some s => s.index + 1

theorem weight_lt_of_next {w w' : SubsetWalk} {s : Cell} (h : w.next = (some s, w')) :
    w'.weight < w.weight := by
  obtain ⟨c, upcoming⟩ := w
  simp only [next, Prod.mk.injEq] at h
  obtain ⟨rfl, rfl⟩ := h
  simp only [weight, Option.bind_some]
  split
  · omega
  · next t ht =>
    have := index_lt_of_subsetBelow ht
    omega

def toList (w : SubsetWalk) : List Cell :=
  match _h : w.next with
  | (none, _) => []
  | (some s, w') => s :: w'.toList
termination_by w.weight
decreasing_by exact weight_lt_of_next (by assumption)

def take : Nat → SubsetWalk → List Cell
  | 0, _ => []
  | k + 1, w =>
    match w.next with
    | (none, _) => []
    | (some s, w') => s :: w'.take k

end SubsetWalk

def subsetWalk (c : Cell) : SubsetWalk := ⟨c, some c⟩

/-- All subsets of a cell, in descending order. -/
def subsets (c : Cell) : List Cell := c.subsetWalk.toList

end Cell
end Credence
