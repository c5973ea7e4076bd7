import Mathlib
import Credence.Bits

/-!
# The bits of a word

Two steps that subtract one and mask: clearing the lowest set bit, and going down to the next
submask. Both are shown on natural numbers, by halving. Set bits are counted position by position.
-/

namespace Credence.Word

/-! ## 1. The lowest bit -/

theorem exists_lowest_bit {x : ℕ} (h : 0 < x) :
    ∃ k, x.testBit k = true ∧ (∀ i < k, x.testBit i = false) ∧
      ∀ i, (x &&& (x - 1)).testBit i = (x.testBit i && i != k) := by
  induction x using Nat.strong_induction_on with
  | h x ih =>
    -- an odd number has its lowest bit at the bottom, an even one where its half has it, one up
    by_cases hodd : x % 2 = 1
    · refine ⟨0, by simp [hodd], by simp, fun i => ?_⟩
      rw [Nat.testBit_and]
      cases i with
      | zero => simp [hodd, show (x - 1) % 2 = 0 by omega]
      | succ i =>
        rw [Nat.testBit_succ, Nat.testBit_succ, show (x - 1) / 2 = x / 2 by omega]
        simp
    · -- halving takes one from the position of the lowest bit
      obtain ⟨k, hk, hbelow, hclear⟩ := ih (x / 2) (by omega) (by omega)
      refine ⟨k + 1, by rw [Nat.testBit_succ, hk], fun i hi => ?_, fun i => ?_⟩
      · cases i with
        | zero => simp [show x % 2 = 0 by omega]
        | succ i =>
          rw [Nat.testBit_succ]
          exact hbelow i (by omega)
      · cases i with
        | zero => simp [show x % 2 = 0 by omega]
        | succ i =>
          have hi := hclear i
          rw [Nat.testBit_and] at hi ⊢
          rw [Nat.testBit_succ, Nat.testBit_succ, show (x - 1) / 2 = x / 2 - 1 by omega, hi]
          simp

/-- Masking a word with its predecessor clears the lowest set bit and no other. -/
theorem getLsbD_and_sub_one {w : ℕ} {x : BitVec w} (h : x ≠ 0) (i : ℕ) :
    (x &&& (x - 1)).getLsbD i = (x.getLsbD i && i != x.ctz.toNat) := by
  obtain ⟨k, hk, hbelow, hclear⟩ := exists_lowest_bit (toNat_pos h)
  have hctz : x.ctz.toNat = k := by
    rcases Nat.lt_trichotomy x.ctz.toNat k with hlt | heq | hgt
    · have hset : x.toNat.testBit x.ctz.toNat = true := BitVec.getLsbD_true_ctz_of_ne_zero h
      rw [hbelow _ hlt] at hset
      exact absurd hset (by decide)
    · exact heq
    · have hunset : x.toNat.testBit k = false := BitVec.getLsbD_false_of_lt_ctz hgt
      rw [hk] at hunset
      exact absurd hunset (by decide)
  rw [hctz]
  change (x &&& (x - 1)).toNat.testBit i = (x.toNat.testBit i && i != k)
  rw [BitVec.toNat_and, toNat_sub_one h, hclear]

/-! ## 2. The next submask -/

/-- Below a submask `s` of `c` there is no submask larger than `(s - 1) &&& c`. -/
theorem le_sub_one_and {c s t : ℕ} (hs : s &&& c = s) (ht : t &&& c = t) (hlt : t < s) :
    t ≤ (s - 1) &&& c := by
  induction s using Nat.strong_induction_on generalizing c t with
  | h s ih =>
    have hsdiv : s / 2 &&& c / 2 = s / 2 := by rw [← Nat.and_div_two, hs]
    have htdiv : t / 2 &&& c / 2 = t / 2 := by rw [← Nat.and_div_two, ht]
    have hdiv := Nat.and_div_two (a := s - 1) (b := c)
    -- an odd mask has a submask that differs in the last bit only; an even one steps down in its half
    by_cases hodd : s % 2 = 1
    · rw [show (s - 1) / 2 = s / 2 by omega, hsdiv] at hdiv
      omega
    · have hstep := ih (s / 2) (by omega) hsdiv htdiv (by omega)
      rw [show (s - 1) / 2 = s / 2 - 1 by omega] at hdiv
      have hmod := Nat.and_mod_two_eq_one (a := s - 1) (b := c)
      have htmod := Nat.and_mod_two_eq_one (a := t) (b := c)
      rw [ht] at htmod
      omega

/-! ## 3. The number of set bits -/

theorem cpopNatRec_eq_card {w : ℕ} (x : BitVec w) (n : ℕ) :
    x.cpopNatRec n 0 = ((Finset.range n).filter fun k => x.getLsbD k = true).card := by
  induction n with
  | zero => rfl
  | succ n ih =>
    rw [BitVec.cpopNatRec_succ, BitVec.cpopNatRec_add, ih, Finset.range_add_one, Finset.filter_insert]
    cases hbit : x.getLsbD n with
    | false => simp
    | true =>
      have hn : n ∉ (Finset.range n).filter fun k => x.getLsbD k = true := by simp
      rw [if_pos rfl, Finset.card_insert_of_notMem hn]
      rfl

end Credence.Word
