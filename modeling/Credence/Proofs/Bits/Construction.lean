import Mathlib
import Credence.Proofs.Bits.Booleans

/-!
# Bit vectors built step by step

The vector of ones comes of filling the words and clearing the tail, and the vector of given
booleans of pushing them one by one.
-/

namespace Credence.Bits

/-! ## 1. Changing one word -/

theorem wordBit_of_length_le {words : List (BitVec 64)} {i : ℕ} (h : words.length ≤ i / 64) :
    wordBit words i = false := by
  rw [wordBit, List.getD_eq_default _ _ h]
  exact BitVec.getLsbD_zero

theorem wordBit_modify (f : BitVec 64 → BitVec 64) {words : List (BitVec 64)} {k : ℕ}
    (hk : k < words.length) (i : ℕ) :
    wordBit (words.modify k f) i =
      if i / 64 = k then (f (words.getD k 0)).getLsbD (i % 64) else wordBit words i := by
  rw [wordBit, wordBit, List.getD_eq_getElem?_getD, List.getElem?_modify]
  by_cases h : i / 64 = k
  · simp [h, hk]
  · simp [h, Ne.symm h]

theorem wordBit_append_zero (words : List (BitVec 64)) (i : ℕ) :
    wordBit (words ++ [0]) i = wordBit words i := by
  induction words generalizing i with
  | nil =>
    rw [wordBit_nil]
    exact wordBit_replicate_zero 1 i
  | cons word words ih =>
    rw [List.cons_append]
    rcases Nat.lt_or_ge i 64 with hi | hi
    · rw [wordBit_cons_of_lt _ _ hi, wordBit_cons_of_lt _ _ hi]
    · rw [wordBit_cons_of_le _ _ hi, wordBit_cons_of_le _ _ hi, ih]

theorem getLsbD_one_shiftLeft {k i : ℕ} (hk : k < 64) :
    (1#64 <<< k).getLsbD i = decide (i = k) := by
  rw [← BitVec.twoPow_eq, BitVec.getLsbD_twoPow]
  simp [hk, eq_comm]

theorem one_shiftLeft_sub_one {k : ℕ} (hk : k < 64) : 1#64 <<< k - 1#64 = lowOnes k := by
  have hpow : 1 ≤ 1 <<< k := by
    rw [Nat.one_shiftLeft]
    exact Nat.one_le_two_pow
  have hshift : BitVec.ofNat 64 (1 <<< k) = 1#64 <<< k := by
    apply BitVec.eq_of_toNat_eq
    rw [BitVec.toNat_ofNat, BitVec.toNat_shiftLeft]
    rfl
  rw [lowOnes, Nat.min_eq_left (Nat.le_of_lt hk),
    ← BitVec.ofNat_sub_ofNat_of_le _ _ (by decide) hpow, hshift]

/-! ## 2. Clearing the tail -/

/-- Sets all bits of all words, those beyond the length as well. -/
def fill (b : Bits) : Bits := { b with words := b.words.map fun _ => BitVec.allOnes 64 }

/-- Clears the bits of the last word that lie beyond the length. -/
def clearTail (b : Bits) : Bits :=
  if b.length % 64 = 0 then b
  else { b with words := b.words.modify (b.length / 64) (· &&& (1#64 <<< (b.length % 64) - 1#64)) }

theorem length_clearTail (b : Bits) : b.clearTail.length = b.length := by
  rw [clearTail]
  split <;> rfl

theorem wordBit_clearTail {b : Bits} (h : b.words.length = wordCount b.length) (i : ℕ) :
    wordBit b.clearTail.words i = (decide (i < b.length) && wordBit b.words i) := by
  unfold wordCount at h
  by_cases hi : i / 64 = b.length / 64 ∧ b.length % 64 ≠ 0
  · have hbit : b.length % 64 < 64 := Nat.mod_lt _ (by decide)
    have hword : i % 64 < 64 := Nat.mod_lt _ (by decide)
    have hmask : (lowOnes (b.length % 64)).getLsbD (i % 64) = decide (i < b.length) := by
      rw [getLsbD_lowOnes, decide_eq_true hword, Bool.and_true, decide_eq_decide]
      omega
    rw [clearTail, if_neg hi.2, wordBit_modify _ (by omega), if_pos hi.1, BitVec.getLsbD_and,
      one_shiftLeft_sub_one hbit, hmask, ← hi.1, Bool.and_comm]
    rfl
  -- no other word reaches beyond the length
  · have hword : wordBit b.clearTail.words i = wordBit b.words i := by
      rw [clearTail]
      split
      · rfl
      · rw [wordBit_modify _ (by omega), if_neg (by omega)]
    rw [hword]
    by_cases hlt : i < b.length
    · simp [hlt]
    · rw [wordBit_of_length_le (by omega), Bool.and_false]

theorem wellFormed_clearTail {b : Bits} (h : b.words.length = wordCount b.length) :
    b.clearTail.WellFormed where
  length := by
    rw [length_clearTail, ← h, clearTail]
    split
    · rfl
    · exact List.length_modify ..
  clear := by
    intro i hi
    rw [length_clearTail] at hi
    simp [wordBit_clearTail h, Nat.not_lt_of_le hi]

theorem wordBit_fill (b : Bits) (i : ℕ) :
    wordBit b.fill.words i = decide (i / 64 < b.words.length) := by
  have hword : i % 64 < 64 := Nat.mod_lt i (by decide)
  rw [wordBit, fill, List.getD_eq_getElem?_getD, List.getElem?_map]
  by_cases hi : i / 64 < b.words.length
  · rw [List.getElem?_eq_getElem hi, decide_eq_true hi]
    show (BitVec.allOnes 64).getLsbD (i % 64) = true
    rw [BitVec.getLsbD_allOnes, decide_eq_true hword]
  · simp [hi]

theorem clearTail_fill_zeros (length : ℕ) : (zeros length).fill.clearTail = ones length := by
  have hwords : (zeros length).fill.words.length = wordCount length := by
    rw [fill, List.length_map]
    exact (wellFormed_zeros length).length
  have hwell := wellFormed_clearTail (b := (zeros length).fill) hwords
  apply hwell.ext (wellFormed_ones length) (length_clearTail _)
  intro i
  rw [hwell.contains_eq_wordBit, wordBit_clearTail hwords, wordBit_fill, contains_ones,
    (wellFormed_zeros length).length]
  show (decide (i < length) && decide (i / 64 < wordCount length)) = _
  rw [← Bool.decide_and, decide_eq_decide, wordCount]
  omega

/-! ## 3. Pushing bits -/

/-- The words, with one more where they are full. -/
def withRoom (b : Bits) : List (BitVec 64) :=
  if b.length / 64 = b.words.length then b.words ++ [0] else b.words

/-- Puts a bit behind the last one. -/
def push (b : Bits) (bit : Bool) : Bits where
  words :=
    if bit then b.withRoom.modify (b.length / 64) (· ||| 1#64 <<< (b.length % 64)) else b.withRoom
  length := b.length + 1

theorem wordBit_withRoom (b : Bits) (i : ℕ) : wordBit b.withRoom i = wordBit b.words i := by
  rw [withRoom]
  split
  · exact wordBit_append_zero b.words i
  · rfl

theorem WellFormed.length_withRoom {b : Bits} (h : b.WellFormed) :
    b.withRoom.length = wordCount (b.length + 1) := by
  have hlen := h.length
  rw [withRoom]
  unfold wordCount at hlen ⊢
  split
  · rw [List.length_append, List.length_singleton]
    omega
  · omega

theorem wordBit_push {b : Bits} (h : b.WellFormed) (bit : Bool) (i : ℕ) :
    wordBit (b.push bit).words i = if i = b.length then bit else wordBit b.words i := by
  cases bit with
  | false =>
    -- nothing was set where the bit goes
    show wordBit b.withRoom i = _
    rw [wordBit_withRoom]
    split
    · next hi => exact h.clear i (Nat.le_of_eq hi.symm)
    · rfl
  | true =>
    have hroom : b.length / 64 < b.withRoom.length := by
      rw [h.length_withRoom, wordCount]
      omega
    have hbit : b.length % 64 < 64 := Nat.mod_lt _ (by decide)
    show wordBit (b.withRoom.modify _ _) i = _
    rw [wordBit_modify _ hroom, BitVec.getLsbD_or, getLsbD_one_shiftLeft hbit]
    -- the last word gets the bit at one place, and the other words stay as they are
    by_cases hword : i / 64 = b.length / 64
    · rw [if_pos hword, ← hword]
      show (wordBit b.withRoom i || _) = _
      rw [wordBit_withRoom]
      by_cases hi : i = b.length
      · simp [hi]
      · rw [if_neg hi, decide_eq_false (by omega), Bool.or_false]
    · rw [if_neg hword, if_neg (by omega), wordBit_withRoom]

theorem WellFormed.push {b : Bits} (h : b.WellFormed) (bit : Bool) : (b.push bit).WellFormed where
  length := by
    cases bit with
    | false => exact h.length_withRoom
    | true => exact (List.length_modify ..).trans h.length_withRoom
  clear := by
    intro i hi
    have hi : b.length < i := hi
    rw [wordBit_push h, if_neg (Nat.ne_of_gt hi), h.clear i (Nat.le_of_lt hi)]

theorem Stores.push {b : Bits} {bools : List Bool} (h : b.Stores bools) (bit : Bool) :
    (b.push bit).Stores (bools ++ [bit]) := by
  have hwell := h.wellFormed.push bit
  apply stores_of_contains hwell
  · rw [List.length_append, ← h.length_eq]
    rfl
  · intro i
    rw [hwell.contains_eq_wordBit, wordBit_push h.wellFormed, ← h.wellFormed.contains_eq_wordBit,
      h.contains_eq, h.length_eq]
    rcases Nat.lt_trichotomy i bools.length with hlt | heq | hgt
    · rw [if_neg (Nat.ne_of_lt hlt), List.getD_append _ _ _ _ hlt]
    · simp [heq]
    · rw [if_neg (Nat.ne_of_gt hgt), List.getD_eq_default _ _ (Nat.le_of_lt hgt),
        List.getD_eq_default _ _ (by rw [List.length_append, List.length_singleton]; omega)]

theorem Stores.foldl_push {b : Bits} {bools : List Bool} (h : b.Stores bools) (bits : List Bool) :
    (bits.foldl Bits.push b).Stores (bools ++ bits) := by
  induction bits generalizing b bools with
  | nil => simpa using h
  | cons bit bits ih => simpa using ih (h.push bit)

theorem foldl_push_zeros (bits : List Bool) : bits.foldl push (zeros 0) = ofBools bits := by
  have hstores := (stores_zeros 0).foldl_push bits
  rw [← hstores.wellFormed.ofBools_toBools, hstores.toBools_eq]
  rfl

end Credence.Bits
