import Mathlib
import Credence.Proofs.Decimal.Shortest

/-!
# The nearest double

Rounding a fraction finds the finite double nearest to it, and of two equally near ones that with the
even significand. From half a place past the largest finite double on it finds infinity. So a decimal
is read as the double that is right for its exact value.
-/

namespace Credence

namespace Binary64

/-- Half way between the largest finite double and the power of two after it. -/
def overflow : ℚ := 2 ^ 1024 - 2 ^ 970

/-- What a number that is not negative is read as. No finite double is nearer to it, and if the
significand is odd, none is equally near. But from half a place past the largest finite double on
it is infinity. -/
inductive IsNearest (v : ℚ) (x : Float) : Prop
  | finite {significand : ℕ} {exponent : ℤ} (hx : ofFloat x = .finite false significand exponent)
    (hlt : v < overflow)
    (hnear : ∀ y negative significand' exponent',
      ofFloat y = .finite negative significand' exponent' → y ≠ x →
        |v - (ofFloat x).toRat| ≤ |v - (ofFloat y).toRat| ∧
          (significand % 2 = 1 → |v - (ofFloat x).toRat| < |v - (ofFloat y).toRat|))
  | infinite (hx : ofFloat x = .infinite false) (hge : overflow ≤ v)

/-! ## 1. The rounded significand -/

/-- The significand that a fraction is rounded to, which may be one too large to be one. -/
def roundedSignificand (num den : ℕ) : ℕ :=
  roundHalfEven (scale num den (roundingExponent num den)).1
    (scale num den (roundingExponent num den)).2

theorem roundsTo_roundedSignificand (num : ℕ) {den : ℕ} (hden : 0 < den) :
    RoundsTo (num / den / 2 ^ roundingExponent num den) (roundedSignificand num den) := by
  have hpos : 0 < (scale num den (roundingExponent num den)).2 := scale_den_pos hden _
  have h := roundsTo_roundHalfEven (scale num den (roundingExponent num den)).1 hpos
  rwa [scale_ratio] at h

section Rounded

variable {num den : ℕ} (hnum : 0 < num) (hden : 0 < den)

include hnum

theorem nearestBits_eq_min : nearestBits num den =
    min (pattern (roundedSignificand num den) (roundingExponent num den)) infinityBits := by
  unfold nearestBits
  rw [if_neg hnum.ne']
  rfl

include hden

theorem lt_two_mul_leadingOne : (num / den : ℚ) < 2 * leadingOne * 2 ^ roundingExponent num den := by
  have hpow : (2 : ℚ) ^ (fullExponent num den + 1) ≤ 2 ^ (roundingExponent num den + 1) := by
    apply zpow_le_zpow_right₀ one_le_two
    unfold roundingExponent
    omega
  have hone : (0 : ℚ) ≤ leadingOne := Nat.cast_nonneg _
  have hspec := (fullExponent_spec hnum hden).2
  rw [zpow_add_one₀ two_ne_zero (roundingExponent num den)] at hpow
  nlinarith

theorem leadingOne_mul_le (h : minExponent < roundingExponent num den) :
    leadingOne * (2 : ℚ) ^ roundingExponent num den ≤ num / den := by
  have hfull : roundingExponent num den = fullExponent num den := by
    unfold roundingExponent at *
    omega
  rw [hfull]
  exact (fullExponent_spec hnum hden).1

theorem roundedSignificand_le : roundedSignificand num den ≤ 2 * leadingOne := by
  have hlow := (roundsTo_roundedSignificand num hden).low
  have hlt : (num / den / 2 ^ roundingExponent num den : ℚ) < 2 * leadingOne := by
    rw [div_lt_iff₀ (by positivity)]
    exact lt_two_mul_leadingOne hnum hden
  have hcast : (roundedSignificand num den : ℚ) < (2 * leadingOne + 1 : ℕ) := by
    push_cast
    linarith
  exact Nat.lt_succ_iff.mp (by exact_mod_cast hcast)

theorem le_roundedSignificand (h : minExponent < roundingExponent num den) :
    leadingOne ≤ roundedSignificand num den := by
  have hhigh := (roundsTo_roundedSignificand num hden).high
  have hle : (leadingOne : ℚ) ≤ num / den / 2 ^ roundingExponent num den := by
    rw [le_div_iff₀ (by positivity)]
    exact leadingOne_mul_le hnum hden h
  have hcast : (leadingOne : ℚ) < (roundedSignificand num den + 1 : ℕ) := by
    push_cast
    linarith
  exact Nat.lt_succ_iff.mp (by exact_mod_cast hcast)

end Rounded

/-! ## 2. What is found -/

theorem RoundsTo.rounds {v : ℚ} {significand : ℕ} {exponent : ℤ}
    (h : RoundsTo (v / 2 ^ exponent) significand)
    (hfull : minExponent < exponent → leadingOne * 2 ^ exponent ≤ v) :
    Rounds v significand exponent := by
  have hpos : (0 : ℚ) < 2 ^ exponent := by positivity
  refine ⟨?_, ?_, fun hodd => ⟨?_, ?_⟩, fun heq hlt => ?_⟩
  · exact (le_div_iff₀ hpos).mp h.low
  · exact (div_le_iff₀ hpos).mp h.high
  · exact (lt_div_iff₀ hpos).mp (h.tie hodd).1
  · exact (div_lt_iff₀ hpos).mp (h.tie hodd).2
  · rw [heq]
    nlinarith [hfull hlt]

/-- A significand that is one too large is the smallest one, one exponent higher. -/
theorem RoundsTo.rounds_succ {v : ℚ} {exponent : ℤ}
    (h : RoundsTo (v / 2 ^ exponent) (2 * leadingOne)) : Rounds v leadingOne (exponent + 1) := by
  have hpos : (0 : ℚ) < 2 ^ exponent := by positivity
  have hlow := (le_div_iff₀ hpos).mp h.low
  have hhigh := (div_le_iff₀ hpos).mp h.high
  push_cast at hlow hhigh
  refine ⟨?_, ?_, fun hodd => ?_, fun _ _ => ?_⟩
  · rw [zpow_add_one₀ two_ne_zero]
    nlinarith
  · rw [zpow_add_one₀ two_ne_zero]
    nlinarith
  · exact absurd hodd (by decide)
  · rw [zpow_add_one₀ two_ne_zero]
    nlinarith

/-- A bit pattern is that of its significand and exponent, or a significand that is one too large
has carried. -/
theorem Canonical.eq_or_carry {significand rounded : ℕ} {exponent e : ℤ}
    (h : Canonical significand exponent) (hmin : minExponent ≤ e) (hle : rounded ≤ 2 * leadingOne)
    (hge : minExponent < e → leadingOne ≤ rounded)
    (hpattern : pattern significand exponent = pattern rounded e) :
    (exponent = e ∧ significand = rounded) ∨
      (exponent = e + 1 ∧ significand = leadingOne ∧ rounded = 2 * leadingOne) := by
  have hexponent := h.exponent_ge
  have hlt := h.significand_lt
  have hfull := h.full
  unfold pattern at hpattern
  simp only [leadingOne_eq] at hlt hfull hle hge hpattern ⊢
  omega

theorem toBits_nearest (num den : ℕ) : (nearest num den).toBits.toNat = nearestBits num den := by
  have hinfinity := infinityBits_eq
  have hle := nearestBits_le num den
  have hnat : (UInt64.ofNat (nearestBits num den)).toNat = nearestBits num den := by
    rw [UInt64.toNat_ofNat']
    omega
  unfold nearest
  rw [toBits_ofBits (by omega), hnat]

/-- A fraction rounds to the finite double that is found for it. -/
theorem rounds_of_nearest_eq_finite {num den significand : ℕ} {exponent : ℤ} (hden : 0 < den)
    (hx : ofFloat (nearest num den) = .finite false significand exponent) :
    Rounds (num / den) significand exponent := by
  obtain ⟨hcanonical, hbits⟩ := ofFloat_eq_finite hx
  rw [toBits_nearest] at hbits
  rcases Nat.eq_zero_or_pos num with rfl | hnum
  · have hzero : pattern significand exponent = pattern 0 minExponent := by
      rw [← hbits, pattern, sub_self]
      rfl
    have hround : RoundsTo (((0 : ℕ) : ℚ) / den / 2 ^ minExponent) 0 :=
      ⟨by norm_num, by norm_num, fun hodd => absurd hodd (by decide)⟩
    obtain ⟨rfl, rfl⟩ | ⟨-, -, hcarry⟩ :=
      hcanonical.eq_or_carry le_rfl (Nat.zero_le _) (fun h => absurd h (lt_irrefl _)) hzero
    · exact hround.rounds fun h => absurd h (lt_irrefl _)
    · exact absurd hcarry (by decide)
  have hpattern : pattern significand exponent =
      pattern (roundedSignificand num den) (roundingExponent num den) := by
    have hfinite := hcanonical.finite
    rw [nearestBits_eq_min hnum] at hbits
    omega
  have hround := roundsTo_roundedSignificand num hden
  obtain ⟨rfl, rfl⟩ | ⟨rfl, rfl, hcarry⟩ := hcanonical.eq_or_carry (le_max_right _ _)
    (roundedSignificand_le hnum hden) (le_roundedSignificand hnum hden) hpattern
  · exact hround.rounds (leadingOne_mul_le hnum hden)
  · rw [hcarry] at hround
    exact hround.rounds_succ

/-! ## 3. Past the finite doubles -/

theorem overflow_eq : overflow = (leadingOne - 1 / 4) * 2 ^ (972 : ℤ) := by
  have hhigh : (2 : ℚ) ^ 1024 = 2 ^ 54 * 2 ^ 970 := by
    rw [show 1024 = 54 + 970 by rfl, pow_add]
  have hplace : (2 : ℚ) ^ (972 : ℤ) = 2 ^ 2 * 2 ^ 970 := by
    rw [zpow_ofNat, show 972 = 2 + 970 by rfl, pow_add]
  rw [overflow, leadingOne_eq_two_pow, hhigh, hplace]
  generalize (2 : ℚ) ^ 970 = p
  push_cast
  ring

theorem Canonical.exponent_le {significand : ℕ} {exponent : ℤ} (h : Canonical significand exponent) :
    exponent ≤ 971 := by
  have hfinite := h.finite
  have hfull := h.full
  have hge := h.exponent_ge
  unfold pattern at hfinite
  simp only [leadingOne_eq, infinityBits_eq, minExponent_eq] at hfinite hfull hge
  omega

/-- A finite double is below the bound, and so is all that rounds to it. -/
theorem Rounds.lt_overflow {v : ℚ} {significand : ℕ} {exponent : ℤ}
    (h : Rounds v significand exponent) (hcanonical : Canonical significand exponent) :
    v < overflow := by
  have hpow : (2 : ℚ) ^ exponent ≤ 2 ^ (971 : ℤ) :=
    zpow_le_zpow_right₀ one_le_two hcanonical.exponent_le
  have hpos : (0 : ℚ) < 2 ^ exponent := by positivity
  have hlt : v < (2 * leadingOne - 1 / 2) * 2 ^ exponent := by
    have hsucc : significand + 1 ≤ 2 * leadingOne := hcanonical.significand_lt
    by_cases hodd : significand % 2 = 1
    · have hcast : (significand : ℚ) + 1 ≤ 2 * leadingOne := by exact_mod_cast hsucc
      nlinarith [(h.tie hodd).2]
    · have hcast : (significand : ℚ) + 2 ≤ 2 * leadingOne := by
        exact_mod_cast (by omega : significand + 2 ≤ 2 * leadingOne)
      nlinarith [h.high]
  have hhalf : (0 : ℚ) < 2 * leadingOne - 1 / 2 := by
    rw [leadingOne_eq]
    norm_num
  calc v < (2 * leadingOne - 1 / 2) * 2 ^ exponent := hlt
    _ ≤ (2 * leadingOne - 1 / 2) * 2 ^ (971 : ℤ) := mul_le_mul_of_nonneg_left hpow hhalf.le
    _ = overflow := by
        rw [overflow_eq, show (972 : ℤ) = 971 + 1 by norm_num, zpow_add_one₀ two_ne_zero]
        ring

theorem overflow_le {num den : ℕ} (hnum : 0 < num) (hden : 0 < den)
    (h : infinityBits ≤ pattern (roundedSignificand num den) (roundingExponent num den)) :
    overflow ≤ num / den := by
  have hround := roundsTo_roundedSignificand num hden
  have hle := roundedSignificand_le hnum hden
  have hfull := leadingOne_mul_le hnum hden
  -- either the exponent is too large, or the largest one with a significand that carries
  have hcases : 972 ≤ roundingExponent num den ∨
      roundingExponent num den = 971 ∧ roundedSignificand num den = 2 * leadingOne := by
    unfold pattern at h
    simp only [leadingOne_eq, infinityBits_eq, minExponent_eq] at h hle ⊢
    omega
  obtain hlarge | ⟨hexponent, hcarry⟩ := hcases
  · have hpow : (2 : ℚ) ^ (972 : ℤ) ≤ 2 ^ roundingExponent num den :=
      zpow_le_zpow_right₀ one_le_two hlarge
    have hpos : (0 : ℚ) < 2 ^ (972 : ℤ) := by positivity
    calc overflow = (leadingOne - 1 / 4) * 2 ^ (972 : ℤ) := overflow_eq
      _ ≤ leadingOne * 2 ^ (972 : ℤ) := mul_le_mul_of_nonneg_right (by linarith) hpos.le
      _ ≤ leadingOne * 2 ^ roundingExponent num den :=
          mul_le_mul_of_nonneg_left hpow (Nat.cast_nonneg _)
      _ ≤ num / den := hfull (by rw [minExponent_eq]; omega)
  · rw [hexponent, hcarry] at hround
    rw [overflow_eq]
    exact hround.rounds_succ.power rfl (by decide)

/-! ## 4. No double is nearer -/

/-- The number is a whole place away from the double, or half a place below a power of two. -/
def Apart (significand : ℕ) (exponent : ℤ) (y : ℚ) : Prop :=
  (significand + 1) * 2 ^ exponent ≤ y ∨ y ≤ (significand - 1) * 2 ^ exponent ∨
    significand = leadingOne ∧ minExponent < exponent ∧ y ≤ (significand - 1 / 2) * 2 ^ exponent

/-- What rounds to a double is not nearer to anything that is apart from it. -/
theorem Rounds.abs_sub_le {v y : ℚ} {significand : ℕ} {exponent : ℤ}
    (h : Rounds v significand exponent) (hy : Apart significand exponent y) :
    |v - significand * 2 ^ exponent| ≤ |v - y| ∧
      (significand % 2 = 1 → |v - significand * 2 ^ exponent| < |v - y|) := by
  have hlow := h.low
  have hhigh := h.high
  have htie := h.tie
  have hpower := h.power
  have hpos : (0 : ℚ) < 2 ^ exponent := by positivity
  unfold Apart at hy
  simp only [sub_mul, add_mul] at *
  generalize (2 : ℚ) ^ exponent = p at *
  generalize (significand : ℚ) * p = c at *
  obtain habove | hbelow | ⟨heq, hlt, hbelow⟩ := hy
  · have hle : y - v ≤ |v - y| := by linarith [neg_le_abs (v - y)]
    refine ⟨(abs_le.mpr ⟨?_, ?_⟩).trans hle, fun hodd => (abs_lt.mpr ⟨?_, ?_⟩).trans_le hle⟩
    · linarith
    · linarith
    · linarith
    · linarith [(htie hodd).2]
  · have hle : v - y ≤ |v - y| := le_abs_self _
    refine ⟨(abs_le.mpr ⟨?_, ?_⟩).trans hle, fun hodd => (abs_lt.mpr ⟨?_, ?_⟩).trans_le hle⟩
    · linarith
    · linarith
    · linarith [(htie hodd).1]
    · linarith
  · have hle : v - y ≤ |v - y| := le_abs_self _
    have hquarter := hpower heq hlt
    refine ⟨(abs_le.mpr ⟨?_, ?_⟩).trans hle, fun hodd => ?_⟩
    · linarith
    · linarith
    · rw [heq] at hodd
      exact absurd hodd (by decide)

/-- Two finite doubles are apart. -/
theorem Canonical.apart {significand significand' : ℕ} {exponent exponent' : ℤ}
    (h : Canonical significand exponent) (h' : Canonical significand' exponent')
    (hne : significand = significand' → exponent ≠ exponent') :
    Apart significand exponent (significand' * 2 ^ exponent') := by
  have hpos : (0 : ℚ) < 2 ^ exponent := by positivity
  by_cases hle : exponent ≤ exponent'
  -- the other one is a multiple of this one's place
  · obtain ⟨k, hk⟩ := Int.le.dest hle
    have hvalue : (significand' : ℚ) * 2 ^ exponent' = (significand' * 2 ^ k : ℕ) * 2 ^ exponent := by
      rw [← hk, zpow_add₀ two_ne_zero, zpow_natCast]
      push_cast
      ring
    have hdiffer : significand ≠ significand' * 2 ^ k := by
      intro heq
      rcases Nat.eq_zero_or_pos k with rfl | hkpos
      · exact hne (by simpa using heq) (by simpa using hk)
      · have hfull := h'.full (lt_of_le_of_lt h.exponent_ge (by omega))
        have htwo : 2 ^ 1 ≤ 2 ^ k := Nat.pow_le_pow_right (by decide) hkpos
        have hmul := Nat.mul_le_mul hfull htwo
        have hlt := h.significand_lt
        omega
    rw [hvalue]
    rcases Nat.lt_or_gt_of_ne hdiffer with hlt | hgt
    · left
      have hcast : (significand : ℚ) + 1 ≤ (significand' * 2 ^ k : ℕ) := by exact_mod_cast hlt
      exact mul_le_mul_of_nonneg_right hcast hpos.le
    · right; left
      have hcast : ((significand' * 2 ^ k : ℕ) : ℚ) + 1 ≤ significand := by exact_mod_cast hgt
      exact mul_le_mul_of_nonneg_right (by linarith) hpos.le
  -- the other one lies below the power of two that this one reaches
  · have hlt : minExponent < exponent := lt_of_le_of_lt h'.exponent_ge (not_le.mp hle)
    have hfull := h.full hlt
    have hpow : (2 : ℚ) ^ exponent' ≤ 2 ^ (exponent - 1) :=
      zpow_le_zpow_right₀ one_le_two (by omega)
    have hsignificand : (significand' : ℚ) ≤ 2 * leadingOne - 1 := by
      have hsucc : (significand' : ℚ) + 1 ≤ 2 * leadingOne := by exact_mod_cast h'.significand_lt
      linarith
    have hvalue : (significand' : ℚ) * 2 ^ exponent' ≤ (leadingOne - 1 / 2) * 2 ^ exponent := by
      calc (significand' : ℚ) * 2 ^ exponent'
          ≤ significand' * 2 ^ (exponent - 1) := mul_le_mul_of_nonneg_left hpow (Nat.cast_nonneg _)
        _ ≤ (2 * leadingOne - 1) * 2 ^ (exponent - 1) :=
            mul_le_mul_of_nonneg_right hsignificand (by positivity)
        _ = (leadingOne - 1 / 2) * 2 ^ exponent := by
            rw [zpow_eq_two_mul exponent]
            ring
    by_cases heq : significand = leadingOne
    · rw [heq]
      exact .inr (.inr ⟨rfl, hlt, hvalue⟩)
    · right; left
      have hcast : (leadingOne : ℚ) + 1 ≤ significand := by
        exact_mod_cast lt_of_le_of_ne hfull (Ne.symm heq)
      exact hvalue.trans (mul_le_mul_of_nonneg_right (by linarith) hpos.le)

theorem toRat_finite (significand : ℕ) (exponent : ℤ) :
    (finite false significand exponent).toRat = significand * 2 ^ exponent := rfl

theorem toRat_finite_negative (significand : ℕ) (exponent : ℤ) :
    (finite true significand exponent).toRat = -(significand * 2 ^ exponent) := rfl

theorem eq_of_ofFloat_eq_finite {x y : Float} {significand : ℕ} {exponent : ℤ}
    (hx : ofFloat x = .finite false significand exponent)
    (hy : ofFloat y = .finite false significand exponent) : x = y := by
  have hbits : x.toBits = y.toBits :=
    UInt64.toNat.inj ((ofFloat_eq_finite hx).2.trans (ofFloat_eq_finite hy).2.symm)
  rw [← Float.ofBits_toBits x, hbits, Float.ofBits_toBits]

theorem Rounds.isNearest {v : ℚ} {x : Float} {significand : ℕ} {exponent : ℤ} (hv : 0 ≤ v)
    (hx : ofFloat x = .finite false significand exponent) (h : Rounds v significand exponent) :
    IsNearest v x := by
  have hcanonical := (ofFloat_eq_finite hx).1
  refine .finite hx (h.lt_overflow hcanonical) fun y negative significand' exponent' hy hne => ?_
  rw [hx, hy, toRat_finite]
  cases negative with
  | false =>
    apply h.abs_sub_le (hcanonical.apart (ofFloat_eq_finite hy).1 _)
    rintro rfl rfl
    exact hne (eq_of_ofFloat_eq_finite hy hx)
  | true =>
    have hpos : (0 : ℚ) < 2 ^ exponent := by positivity
    have hneg : (finite true significand' exponent').toRat ≤ 0 := by
      rw [toRat_finite_negative, neg_nonpos]
      positivity
    rcases Nat.eq_zero_or_pos significand with rfl | hsignificand
    · rw [Nat.cast_zero, zero_mul, sub_zero, abs_of_nonneg hv]
      refine ⟨le_trans ?_ (le_abs_self _), fun hodd => absurd hodd (by decide)⟩
      linarith
    · have hone : (1 : ℚ) ≤ significand := by exact_mod_cast hsignificand
      exact h.abs_sub_le (.inr (.inl (hneg.trans (mul_nonneg (by linarith) hpos.le))))

/-- Rounding finds the nearest double. -/
theorem isNearest_nearest (num : ℕ) {den : ℕ} (hden : 0 < den) :
    IsNearest (num / den) (nearest num den) := by
  obtain hlt | heq := Nat.lt_or_eq_of_le (nearestBits_le num den)
  · obtain ⟨significand, exponent, hx⟩ := exists_ofFloat_ofBits hlt
    exact (rounds_of_nearest_eq_finite hden hx).isNearest (by positivity) hx
  · have hinfinite : ofFloat (nearest num den) = .infinite false := by
      unfold nearest
      rw [heq]
      exact ofFloat_infinity
    rcases Nat.eq_zero_or_pos num with rfl | hnum
    · rw [show nearestBits 0 den = 0 from if_pos rfl] at heq
      exact absurd heq (by decide)
    · rw [nearestBits_eq_min hnum] at heq
      exact .infinite hinfinite (overflow_le hnum hden (by omega))

end Binary64

/-- A decimal is read as the double nearest to its value. -/
theorem Decimal.isNearest_toFloat (d : Decimal) : Binary64.IsNearest d.value d.toFloat := by
  rw [value_eq_div]
  exact Binary64.isNearest_nearest _ (powTen_pos _)

end Credence
