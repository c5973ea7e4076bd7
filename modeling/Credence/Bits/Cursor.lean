import Credence.Bits

/-!
# Set bits

The indices of the set bits of a vector, in ascending order. A cursor stands in a word and clears
its lowest bit at each step; an empty word sends it on to the next one.
-/

namespace Credence

namespace Bits

/-- A position in the words of a vector: what is left of the current word, the index of that
word's first bit, and the words still to come. -/
structure Cursor where
  word : BitVec 64
  base : Nat
  later : List (BitVec 64)
  deriving DecidableEq

def clearLowest (word : BitVec 64) : BitVec 64 := word &&& (word - 1)

theorem toNat_clearLowest_lt {word : BitVec 64} (h : word ≠ 0) :
    (clearLowest word).toNat < word.toNat := by
  rw [clearLowest, BitVec.toNat_and]
  exact Nat.lt_of_le_of_lt Nat.and_le_right (Word.toNat_sub_one_lt h)

namespace Cursor

/-- From a given word on, the index of the next set bit and the cursor past it. Without one, the
cursor stays in the last word. -/
def advance (word : BitVec 64) (base : Nat) : List (BitVec 64) → Option Nat × Cursor
  | [] =>
    if word = 0 then (none, ⟨word, base, []⟩)
    else (some (base + word.ctz.toNat), ⟨clearLowest word, base, []⟩)
  | word' :: later =>
    if word = 0 then advance word' (base + 64) later
    else (some (base + word.ctz.toNat), ⟨clearLowest word, base, word' :: later⟩)

def next (c : Cursor) : Option Nat × Cursor := advance c.word c.base c.later

def total : List (BitVec 64) → Nat
  | [] => 0
  | word :: words => word.toNat + total words

/-- What is left to visit, added up. -/
def weight (c : Cursor) : Nat := c.word.toNat + total c.later

theorem weight_lt_of_advance {word : BitVec 64} {base i : Nat} {later : List (BitVec 64)}
    {c : Cursor} (h : advance word base later = (some i, c)) :
    c.weight < word.toNat + total later := by
  induction later generalizing word base with
  | nil =>
    rw [advance] at h
    split at h
    · simp at h
    · next hw =>
      simp only [Prod.mk.injEq] at h
      rw [← h.2]
      have := toNat_clearLowest_lt hw
      simpa [weight, total] using this
  | cons word' later ih =>
    rw [advance] at h
    split at h
    · next hw =>
      have := ih h
      simp only [hw, total]
      omega
    · next hw =>
      simp only [Prod.mk.injEq] at h
      rw [← h.2]
      have := toNat_clearLowest_lt hw
      simp only [weight]
      omega

theorem weight_lt_of_next {c c' : Cursor} {i : Nat} (h : c.next = (some i, c')) :
    c'.weight < c.weight :=
  weight_lt_of_advance h

def toList (c : Cursor) : List Nat :=
  match _h : c.next with
  | (none, _) => []
  | (some i, c') => i :: c'.toList
termination_by c.weight
decreasing_by exact weight_lt_of_next (by assumption)

end Cursor

def cursor (b : Bits) : Cursor := ⟨b.words.headD 0, 0, b.words.tail⟩

/-- The indices of the set bits, in ascending order. -/
def indices (b : Bits) : List Nat := b.cursor.toList

end Bits
end Credence
