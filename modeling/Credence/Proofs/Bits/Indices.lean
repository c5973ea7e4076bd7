import Credence.Bits.Cursor
import Credence.Proofs.Bits.WellFormed
import Credence.Proofs.Walk
import Credence.Proofs.Word

/-!
# The walk through the set bits

A cursor visits exactly the set bits of its words, in ascending order. Of a well-formed vector these
are the indices below its length at which it has a bit.
-/

namespace Credence.Bits

/-! ## 1. One word -/

def setBits (word : BitVec 64) : List ℕ := (List.range 64).filter word.getLsbD

theorem mem_setBits {word : BitVec 64} {i : ℕ} : i ∈ setBits word ↔ word.getLsbD i = true := by
  rw [setBits, List.mem_filter, List.mem_range]
  refine ⟨fun h => h.2, fun h => ⟨?_, h⟩⟩
  by_contra hi
  rw [BitVec.getLsbD_of_ge _ _ (Nat.le_of_not_lt hi)] at h
  exact absurd h (by decide)

theorem pairwise_setBits (word : BitVec 64) : (setBits word).Pairwise (· < ·) :=
  List.pairwise_lt_range.filter _

theorem setBits_zero : setBits 0 = [] := by
  apply List.eq_nil_iff_forall_not_mem.mpr
  intro i hi
  rw [mem_setBits] at hi
  simp at hi

/-- The lowest set bit comes first, and clearing it leaves the others. -/
theorem setBits_eq_cons {word : BitVec 64} (h : word ≠ 0) :
    setBits word = word.ctz.toNat :: setBits (clearLowest word) := by
  have hclear (i : ℕ) : i ∈ setBits (clearLowest word) ↔
      word.getLsbD i = true ∧ i ≠ word.ctz.toNat := by
    rw [mem_setBits, clearLowest, Word.getLsbD_and_sub_one h]
    simp
  -- both lists ascend, so it is enough that they have the same members
  apply List.Pairwise.eq_of_mem_iff (pairwise_setBits word)
  · rw [List.pairwise_cons]
    refine ⟨fun i hi => ?_, pairwise_setBits _⟩
    obtain ⟨hset, hne⟩ := (hclear i).mp hi
    -- below the lowest set bit there is none
    by_contra hlt
    rw [BitVec.getLsbD_false_of_lt_ctz (by omega)] at hset
    exact absurd hset (by decide)
  · intro i
    rw [mem_setBits, List.mem_cons, hclear]
    constructor
    · intro hset
      by_cases hi : i = word.ctz.toNat
      · exact .inl hi
      · exact .inr ⟨hset, hi⟩
    · rintro (rfl | ⟨hset, -⟩)
      · exact BitVec.getLsbD_true_ctz_of_ne_zero h
      · exact hset

/-! ## 2. Several words -/

/-- The set bits of words, of which the first bit has index `base`. -/
def bitsFrom (base : ℕ) : List (BitVec 64) → List ℕ
  | [] => []
  | word :: words => (setBits word).map (base + ·) ++ bitsFrom (base + 64) words

theorem mem_bitsFrom {base : ℕ} {words : List (BitVec 64)} {j : ℕ} :
    j ∈ bitsFrom base words ↔ base ≤ j ∧ wordBit words (j - base) = true := by
  induction words generalizing base with
  | nil => simp [bitsFrom, wordBit_nil]
  | cons word words ih =>
    rw [bitsFrom, List.mem_append, List.mem_map, ih]
    constructor
    · rintro (⟨i, hi, rfl⟩ | ⟨hle, hbit⟩)
      · have hlt : i < 64 := List.mem_range.mp (List.mem_filter.mp hi).1
        rw [Nat.add_sub_cancel_left, wordBit_cons_of_lt _ _ hlt]
        exact ⟨Nat.le_add_right _ _, mem_setBits.mp hi⟩
      · rw [wordBit_cons_of_le _ _ (by omega), Nat.sub_sub]
        exact ⟨by omega, hbit⟩
    · rintro ⟨hle, hbit⟩
      rcases Nat.lt_or_ge (j - base) 64 with hlt | hge
      · rw [wordBit_cons_of_lt _ _ hlt] at hbit
        exact .inl ⟨j - base, mem_setBits.mpr hbit, by omega⟩
      · rw [wordBit_cons_of_le _ _ hge, Nat.sub_sub] at hbit
        exact .inr ⟨by omega, hbit⟩

theorem pairwise_bitsFrom (base : ℕ) (words : List (BitVec 64)) :
    (bitsFrom base words).Pairwise (· < ·) := by
  induction words generalizing base with
  | nil => exact .nil
  | cons word words ih =>
    rw [bitsFrom, List.pairwise_append]
    refine ⟨?_, ih (base + 64), ?_⟩
    · rw [List.pairwise_map]
      exact (pairwise_setBits word).imp fun h => Nat.add_lt_add_left h base
    · intro i hi j hj
      obtain ⟨k, hk, rfl⟩ := List.mem_map.mp hi
      have hlt : k < 64 := List.mem_range.mp (List.mem_filter.mp hk).1
      have hle := (mem_bitsFrom.mp hj).1
      omega

/-! ## 3. The walk -/

namespace Cursor

theorem bitsFrom_zero (base : ℕ) (later : List (BitVec 64)) :
    bitsFrom base (0 :: later) = bitsFrom (base + 64) later := by
  rw [bitsFrom, setBits_zero, List.map_nil, List.nil_append]

theorem bitsFrom_of_ne_zero {word : BitVec 64} (h : word ≠ 0) (base : ℕ)
    (later : List (BitVec 64)) :
    bitsFrom base (word :: later) =
      (base + word.ctz.toNat) :: bitsFrom base (clearLowest word :: later) := by
  rw [bitsFrom, setBits_eq_cons h, List.map_cons, List.cons_append, bitsFrom]

theorem bitsFrom_of_advance (word : BitVec 64) (base : ℕ) (later : List (BitVec 64)) :
    match advance word base later with
    | (none, _) => bitsFrom base (word :: later) = []
    | (some i, c) => bitsFrom base (word :: later) = i :: bitsFrom c.base (c.word :: c.later) := by
  -- empty words are passed over, the first other one holds the next bit
  induction later generalizing word base with
  | nil =>
    rw [advance]
    by_cases h : word = 0
    · rw [if_pos h, h]
      exact bitsFrom_zero base []
    · rw [if_neg h]
      exact bitsFrom_of_ne_zero h base []
  | cons word' later ih =>
    rw [advance]
    by_cases h : word = 0
    · rw [if_pos h, h, bitsFrom_zero]
      exact ih word' (base + 64)
    · rw [if_neg h]
      exact bitsFrom_of_ne_zero h base (word' :: later)

theorem toList_of_next_none {c c' : Cursor} (h : c.next = (none, c')) : c.toList = [] := by
  rw [toList]
  split
  next => rfl
  next h' => rw [h] at h'; cases h'

theorem toList_of_next_some {c c' : Cursor} {i : ℕ} (h : c.next = (some i, c')) :
    c.toList = i :: c'.toList := by
  rw [toList]
  split
  next h' => rw [h] at h'; cases h'
  next h' => rw [h] at h'; cases h'; rfl

theorem toList_eq_bitsFrom (c : Cursor) : c.toList = bitsFrom c.base (c.word :: c.later) := by
  induction c using toList.induct with
  | case1 c c' h =>
    have hbits := bitsFrom_of_advance c.word c.base c.later
    rw [show advance c.word c.base c.later = (none, c') from h] at hbits
    rw [toList_of_next_none h, hbits]
  | case2 c i c' h ih =>
    have hbits := bitsFrom_of_advance c.word c.base c.later
    rw [show advance c.word c.base c.later = (some i, c') from h] at hbits
    rw [toList_of_next_some h, hbits, ih]

/-- Once nothing is left the cursor is at the last word, which is empty, and stays there. -/
theorem next_of_advance_none {word : BitVec 64} {base : ℕ} {later : List (BitVec 64)} {c : Cursor}
    (h : advance word base later = (none, c)) : c.next = (none, c) := by
  induction later generalizing word base with
  | nil =>
    rw [advance] at h
    by_cases hword : word = 0
    · rw [if_pos hword] at h
      cases h
      show advance word base [] = _
      rw [advance, if_pos hword]
    · rw [if_neg hword] at h
      cases h
  | cons word' later ih =>
    rw [advance] at h
    by_cases hword : word = 0
    · rw [if_pos hword] at h
      exact ih h
    · rw [if_neg hword] at h
      cases h

theorem yields_toList (c : Cursor) : Walk.Yields next c c.toList := by
  apply Walk.yields_of_step
  · intro c c' h
    exact ⟨toList_of_next_none h, next_of_advance_none h⟩
  · intro c i c' h
    exact toList_of_next_some h

end Cursor

theorem indices_eq_bitsFrom (b : Bits) : b.indices = bitsFrom 0 b.words := by
  rw [indices, Cursor.toList_eq_bitsFrom, cursor]
  cases b.words with
  | nil => rfl
  | cons word words => rfl

theorem WellFormed.mem_indices {b : Bits} (h : b.WellFormed) {i : ℕ} :
    i ∈ b.indices ↔ b.contains i = true := by
  rw [indices_eq_bitsFrom, mem_bitsFrom, h.contains_eq_wordBit, Nat.sub_zero]
  simp

theorem pairwise_indices (b : Bits) : b.indices.Pairwise (· < ·) := by
  rw [indices_eq_bitsFrom]
  exact pairwise_bitsFrom 0 b.words

end Credence.Bits
