import Mathlib
import Credence.Bits

/-!
# Well-formed bit vectors

A bit vector has as many words as its length calls for, and nothing is set beyond the length. Of
such vectors the words can be forgotten: they are equal when their lengths and their bits are.
-/

namespace Credence.Bits

/-! ## 1. Bits in words -/

/-- Bit `i` of a list of words, wherever it may end. -/
def wordBit (words : List (BitVec 64)) (i : ℕ) : Bool := (words.getD (i / 64) 0).getLsbD (i % 64)

theorem contains_eq (b : Bits) (i : ℕ) : b.contains i = (i < b.length && wordBit b.words i) := rfl

theorem wordBit_nil (i : ℕ) : wordBit [] i = false := by
  simp [wordBit]

theorem wordBit_cons_of_lt (word : BitVec 64) (words : List (BitVec 64)) {i : ℕ} (h : i < 64) :
    wordBit (word :: words) i = word.getLsbD i := by
  rw [wordBit, Nat.div_eq_of_lt h, Nat.mod_eq_of_lt h, List.getD_cons_zero]

theorem wordBit_cons_of_le (word : BitVec 64) (words : List (BitVec 64)) {i : ℕ} (h : 64 ≤ i) :
    wordBit (word :: words) i = wordBit words (i - 64) := by
  rw [wordBit, wordBit, show i / 64 = (i - 64) / 64 + 1 by omega, List.getD_cons_succ,
    show (i - 64) % 64 = i % 64 by omega]

theorem eq_of_wordBit_eq {words words' : List (BitVec 64)} (hlen : words.length = words'.length)
    (h : ∀ i, wordBit words i = wordBit words' i) : words = words' := by
  induction words generalizing words' with
  | nil => exact (List.length_eq_zero_iff.mp hlen.symm).symm
  | cons word words ih =>
    cases words' with
    | nil => simp at hlen
    | cons word' words' =>
      -- the first 64 bits make the first word, and the others, moved down, the rest
      have hhead : word = word' := by
        apply BitVec.eq_of_getLsbD_eq
        intro i hi
        have := h i
        rwa [wordBit_cons_of_lt _ _ hi, wordBit_cons_of_lt _ _ hi] at this
      have htail : words = words' := by
        apply ih (by simpa using hlen)
        intro i
        have := h (i + 64)
        rwa [wordBit_cons_of_le _ _ (by omega), wordBit_cons_of_le _ _ (by omega),
          Nat.add_sub_cancel] at this
      rw [hhead, htail]

theorem wordBit_replicate_zero (k i : ℕ) : wordBit (List.replicate k 0) i = false := by
  rw [wordBit, List.getD_eq_getElem?_getD, List.getElem?_replicate]
  split <;> simp

theorem wordBit_zipWith {f : BitVec 64 → BitVec 64 → BitVec 64} {g : Bool → Bool → Bool}
    (hfg : ∀ x y i, (f x y).getLsbD i = g (x.getLsbD i) (y.getLsbD i)) (hg : g false false = false)
    {words words' : List (BitVec 64)} (hlen : words.length = words'.length) (i : ℕ) :
    wordBit (List.zipWith f words words') i = g (wordBit words i) (wordBit words' i) := by
  induction words generalizing words' i with
  | nil =>
    rw [List.length_eq_zero_iff.mp hlen.symm, List.zipWith_nil_left, wordBit_nil, hg]
  | cons word words ih =>
    cases words' with
    | nil => simp at hlen
    | cons word' words' =>
      rw [List.zipWith_cons_cons]
      rcases Nat.lt_or_ge i 64 with hi | hi
      · rw [wordBit_cons_of_lt _ _ hi, wordBit_cons_of_lt _ _ hi, wordBit_cons_of_lt _ _ hi, hfg]
      · rw [wordBit_cons_of_le _ _ hi, wordBit_cons_of_le _ _ hi, wordBit_cons_of_le _ _ hi]
        exact ih (by simpa using hlen) _

/-! ## 2. Words of given bits -/

theorem getLsbD_wordOfBools {bits : List Bool} (h : bits.length ≤ 64) (i : ℕ) :
    (wordOfBools bits).getLsbD i = bits.getD i false := by
  induction bits generalizing i with
  | nil => simp [wordOfBools]
  | cons bit bits ih =>
    rw [List.length_cons] at h
    -- one more bit in front shifts all others up
    have hword : wordOfBools (bit :: bits) =
        wordOfBools bits <<< 1 ||| (BitVec.ofBool bit).setWidth 64 := rfl
    rw [hword, BitVec.getLsbD_or, BitVec.getLsbD_shiftLeft]
    cases i with
    | zero => simp
    | succ i =>
      rw [List.getD_cons_succ, Nat.add_sub_cancel, ih (by omega)]
      rcases Nat.lt_or_ge (i + 1) 64 with hi | hi
      · simp [hi]
      -- beyond the word there is neither a bit of it nor one to put there
      · rw [List.getD_eq_default _ _ (by omega)]
        simp [BitVec.getLsbD_setWidth]

theorem wordBit_wordsOfBools (bits : List Bool) (i : ℕ) :
    wordBit (wordsOfBools bits) i = bits.getD i false := by
  induction bits using wordsOfBools.induct generalizing i with
  | case1 => rw [wordsOfBools, wordBit_nil, List.getD_nil]
  | case2 bit rest ih =>
    rw [wordsOfBools]
    rcases Nat.lt_or_ge i 64 with hi | hi
    -- the first word takes 64 of the bits
    · have hlen : (bit :: rest.take 63).length ≤ 64 := by simp
      rw [wordBit_cons_of_lt _ _ hi, getLsbD_wordOfBools hlen]
      cases i with
      | zero => rfl
      | succ i =>
        rw [List.getD_cons_succ, List.getD_cons_succ, List.getD_eq_getElem?_getD,
          List.getElem?_take_of_lt (by omega), List.getD_eq_getElem?_getD]
    · rw [wordBit_cons_of_le _ _ hi, ih, List.getD_eq_getElem?_getD, List.getElem?_drop,
        show 63 + (i - 64) = i - 1 by omega, ← List.getD_eq_getElem?_getD]
      conv_rhs => rw [show i = i - 1 + 1 by omega]
      rw [List.getD_cons_succ]

theorem length_wordsOfBools (bits : List Bool) :
    (wordsOfBools bits).length = wordCount bits.length := by
  induction bits using wordsOfBools.induct with
  | case1 => rw [wordsOfBools, List.length_nil, List.length_nil, wordCount]
  | case2 bit rest ih =>
    rw [wordsOfBools, List.length_cons, ih, List.length_drop, List.length_cons, wordCount,
      wordCount]
    omega

/-! ## 3. Well-formed vectors -/

structure WellFormed (b : Bits) : Prop where
  length : b.words.length = wordCount b.length
  clear : ∀ i, b.length ≤ i → wordBit b.words i = false

theorem WellFormed.contains_eq_wordBit {b : Bits} (h : b.WellFormed) (i : ℕ) :
    b.contains i = wordBit b.words i := by
  rw [contains_eq]
  by_cases hi : i < b.length
  · simp [hi]
  · simp [hi, h.clear i (Nat.le_of_not_lt hi)]

theorem contains_of_length_le {b : Bits} {i : ℕ} (h : b.length ≤ i) : b.contains i = false := by
  rw [contains_eq]
  simp [Nat.not_lt_of_le h]

theorem lt_length_of_contains {b : Bits} {i : ℕ} (h : b.contains i = true) : i < b.length := by
  by_contra hge
  rw [contains_of_length_le (Nat.le_of_not_lt hge)] at h
  exact absurd h (by decide)

theorem WellFormed.ext {a b : Bits} (ha : a.WellFormed) (hb : b.WellFormed)
    (hlen : a.length = b.length) (h : ∀ i, a.contains i = b.contains i) : a = b := by
  have hwords : a.words = b.words := by
    apply eq_of_wordBit_eq
    · rw [ha.length, hb.length, hlen]
    · intro i
      rw [← ha.contains_eq_wordBit, ← hb.contains_eq_wordBit, h]
  cases a
  cases b
  simp only at hwords hlen
  rw [hwords, hlen]

/-! ## 4. Operations -/

theorem wellFormed_zeros (length : ℕ) : (zeros length).WellFormed where
  length := List.length_replicate
  clear := fun _ _ => wordBit_replicate_zero _ _

theorem contains_zeros (length i : ℕ) : (zeros length).contains i = false := by
  rw [(wellFormed_zeros length).contains_eq_wordBit]
  exact wordBit_replicate_zero _ _

theorem getLsbD_lowOnes (count i : ℕ) :
    (lowOnes count).getLsbD i = (decide (i < count) && decide (i < 64)) := by
  have hbit : (1 <<< min count 64 - 1).testBit i = decide (i < min count 64) := by
    rw [Nat.one_shiftLeft, Nat.testBit_two_pow_sub_one]
  rw [lowOnes, BitVec.getLsbD_ofNat, hbit]
  by_cases hi : i < 64 <;> simp [hi]

theorem wordBit_ones (length i : ℕ) : wordBit (ones length).words i = decide (i < length) := by
  have hword : i % 64 < 64 := Nat.mod_lt i (by decide)
  rw [wordBit, ones, List.getD_eq_getElem?_getD, List.getElem?_map]
  by_cases hi : i / 64 < wordCount length
  · rw [List.getElem?_range hi]
    show (lowOnes (length - 64 * (i / 64))).getLsbD (i % 64) = _
    rw [getLsbD_lowOnes, decide_eq_true hword, Bool.and_true, decide_eq_decide]
    omega
  -- there is no word past the last bit
  · rw [List.getElem?_eq_none (by rw [List.length_range]; omega)]
    unfold wordCount at hi
    have hpast : ¬ i < length := by omega
    simp [hpast]

theorem wellFormed_ones (length : ℕ) : (ones length).WellFormed where
  length := by rw [ones, List.length_map, List.length_range]
  clear := by
    intro i hi
    rw [wordBit_ones]
    exact decide_eq_false (Nat.not_lt_of_le hi)

theorem contains_ones (length i : ℕ) : (ones length).contains i = decide (i < length) := by
  rw [(wellFormed_ones length).contains_eq_wordBit, wordBit_ones]

theorem wellFormed_ofBools (bits : List Bool) : (ofBools bits).WellFormed where
  length := length_wordsOfBools bits
  clear := by
    intro i hi
    rw [ofBools, wordBit_wordsOfBools]
    exact List.getD_eq_default _ _ hi

theorem contains_ofBools (bits : List Bool) (i : ℕ) :
    (ofBools bits).contains i = bits.getD i false := by
  rw [(wellFormed_ofBools bits).contains_eq_wordBit]
  exact wordBit_wordsOfBools bits i

/-- Combining words combines bits. -/
theorem zipWords_spec {f : BitVec 64 → BitVec 64 → BitVec 64} {g : Bool → Bool → Bool}
    (hfg : ∀ x y i, (f x y).getLsbD i = g (x.getLsbD i) (y.getLsbD i)) (hg : g false false = false)
    {a b : Bits} (ha : a.WellFormed) (hb : b.WellFormed) (hlen : a.length = b.length) :
    ∃ c, zipWords f a b = .ok c ∧ c.WellFormed ∧ c.length = a.length ∧
      ∀ i, c.contains i = g (a.contains i) (b.contains i) := by
  have hwords : a.words.length = b.words.length := by rw [ha.length, hb.length, hlen]
  have hbit (i : ℕ) : wordBit (List.zipWith f a.words b.words) i =
      g (wordBit a.words i) (wordBit b.words i) := wordBit_zipWith hfg hg hwords i
  have hc : WellFormed ⟨List.zipWith f a.words b.words, a.length⟩ := by
    constructor
    · rw [List.length_zipWith, ← hwords, Nat.min_self, ha.length]
    · intro i hi
      rw [hbit, ha.clear i hi, hb.clear i (hlen ▸ hi), hg]
  refine ⟨_, if_pos hlen, hc, rfl, fun i => ?_⟩
  rw [hc.contains_eq_wordBit, ha.contains_eq_wordBit, hb.contains_eq_wordBit, hbit]

theorem union_spec {a b : Bits} (ha : a.WellFormed) (hb : b.WellFormed)
    (hlen : a.length = b.length) :
    ∃ c, a.union b = .ok c ∧ c.WellFormed ∧ c.length = a.length ∧
      ∀ i, c.contains i = (a.contains i || b.contains i) :=
  zipWords_spec (fun _ _ _ => BitVec.getLsbD_or) rfl ha hb hlen

theorem inter_spec {a b : Bits} (ha : a.WellFormed) (hb : b.WellFormed)
    (hlen : a.length = b.length) :
    ∃ c, a.inter b = .ok c ∧ c.WellFormed ∧ c.length = a.length ∧
      ∀ i, c.contains i = (a.contains i && b.contains i) :=
  zipWords_spec (fun _ _ _ => BitVec.getLsbD_and) rfl ha hb hlen

end Credence.Bits
