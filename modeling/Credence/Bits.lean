import Credence.Fault

/-!
# Bit vectors

A row of bits of any length, kept in words of 64. The bits beyond the length are always clear, so
that two rows of bits are equal exactly when their words are, and the set bits can be counted word
by word. Walks through set bits subtract one from a word, which takes it down as long as it is not
zero.
-/

namespace Credence

/-- A vector of `length` bits. Bit `i` is bit `i % 64` of word `i / 64`. -/
structure Bits where
  words : List (BitVec 64)
  length : Nat
  deriving DecidableEq

namespace Word

theorem toNat_pos {w : Nat} {x : BitVec w} (h : x ≠ 0) : 0 < x.toNat := by
  rw [BitVec.toNat_pos, BitVec.pos_iff_ne_zero]
  exact h

theorem toNat_sub_one {w : Nat} {x : BitVec w} (h : x ≠ 0) : (x - 1).toNat = x.toNat - 1 := by
  have hpos := toNat_pos h
  have hone : (1 : BitVec w).toNat = 1 := by
    have := x.isLt
    simp only [BitVec.ofNat_eq_ofNat, BitVec.toNat_ofNat]
    exact Nat.mod_eq_of_lt (by omega)
  rw [BitVec.toNat_sub_of_le (by rw [BitVec.le_def, hone]; exact hpos), hone]

theorem toNat_sub_one_lt {w : Nat} {x : BitVec w} (h : x ≠ 0) : (x - 1).toNat < x.toNat := by
  rw [toNat_sub_one h]
  exact Nat.sub_one_lt (Nat.ne_of_gt (toNat_pos h))

end Word

namespace Bits

def wordCount (length : Nat) : Nat := (length + 63) / 64

/-- The word whose lowest `count` bits are set, or all of them if there are no more than that. -/
def lowOnes (count : Nat) : BitVec 64 := BitVec.ofNat 64 (1 <<< min count 64 - 1)

/-! ## Construction -/

def zeros (length : Nat) : Bits := ⟨List.replicate (wordCount length) 0, length⟩

def ones (length : Nat) : Bits :=
  ⟨(List.range (wordCount length)).map fun k => lowOnes (length - 64 * k), length⟩

/-- The word whose lowest bits are the given ones, at most 64. -/
def wordOfBools (bits : List Bool) : BitVec 64 :=
  bits.foldr (fun bit word => word <<< 1 ||| (BitVec.ofBool bit).setWidth 64) 0

def wordsOfBools (bits : List Bool) : List (BitVec 64) :=
  match bits with
  | [] => []
  | bit :: rest => wordOfBools (bit :: rest.take 63) :: wordsOfBools (rest.drop 63)
termination_by bits.length
decreasing_by simp only [List.length_drop, List.length_cons]; omega

def ofBools (bits : List Bool) : Bits := ⟨wordsOfBools bits, bits.length⟩

/-! ## Observation -/

/-- Whether bit `i` is set. Beyond the end no bit is. -/
def contains (b : Bits) (i : Nat) : Bool :=
  i < b.length && (b.words.getD (i / 64) 0).getLsbD (i % 64)

def toBools (b : Bits) : List Bool := (List.range b.length).map b.contains

def countWords : List (BitVec 64) → Nat
  | [] => 0
  | word :: words => word.cpop.toNat + countWords words

def count (b : Bits) : Nat := countWords b.words

/-- Whether the vector has no bits at all, set or clear. -/
def isEmpty (b : Bits) : Bool := b.length = 0

/-- Each bit as one of two values. -/
def select {α : Type} (b : Bits) (clear set : α) : List α :=
  b.toBools.map fun bit => if bit then set else clear

def text (b : Bits) : String := String.ofList (b.select '0' '1')

/-! ## Combination -/

/-- Combines two vectors of one length word by word. -/
def zipWords (f : BitVec 64 → BitVec 64 → BitVec 64) (a b : Bits) : Except Fault Bits :=
  if a.length = b.length then .ok ⟨List.zipWith f a.words b.words, a.length⟩
  else .error .unequalBits

def union (a b : Bits) : Except Fault Bits := zipWords (· ||| ·) a b

def inter (a b : Bits) : Except Fault Bits := zipWords (· &&& ·) a b

end Bits
end Credence
