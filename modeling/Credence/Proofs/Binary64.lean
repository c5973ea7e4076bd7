import Mathlib
import Credence.Binary64

/-!
# Rounding to double precision

A fraction close enough to a double is rounded to that double. Close enough means half a place at
most, and below a power of two, where the doubles lie twice as dense, a quarter. Fractions half way
between two doubles go to the even significand.
-/

namespace Credence

namespace Binary64

/-! ## 1. The finite doubles -/

theorem leadingOne_eq : leadingOne = 4503599627370496 := by decide

theorem leadingOne_eq_two_pow : leadingOne = 2 ^ 52 := by decide

theorem infinityBits_eq : infinityBits = 9218868437227405312 := by decide

theorem minExponent_eq : minExponent = -1074 := rfl

/-- The bit pattern of a positive double. -/
def pattern (significand : ℕ) (exponent : ℤ) : ℕ :=
  (exponent - minExponent).toNat * leadingOne + significand

/-- The significands and exponents that finite doubles have. -/
structure Canonical (significand : ℕ) (exponent : ℤ) : Prop where
  exponent_ge : minExponent ≤ exponent
  significand_lt : significand < 2 * leadingOne
  full : minExponent < exponent → leadingOne ≤ significand
  finite : pattern significand exponent < infinityBits

theorem ofFloat_eq_finite {x : Float} {significand : ℕ} {exponent : ℤ}
    (h : ofFloat x = .finite false significand exponent) :
    Canonical significand exponent ∧ x.toBits.toNat = pattern significand exponent := by
  have hmin := minExponent_eq
  generalize hbits : x.toBits.toNat = bits
  simp only [ofFloat, hbits, leadingOne_eq, Nat.reduceShiftLeft] at h
  split at h
  · split at h <;> cases h
  split at h
  -- without an exponent field there need not be a leading one
  · simp only [finite.injEq, decide_eq_false_iff_not] at h
    unfold pattern
    refine ⟨⟨?_, ?_, ?_, ?_⟩, ?_⟩ <;>
      simp only [pattern, leadingOne_eq, infinityBits_eq, minExponent_eq] <;> omega
  · simp only [finite.injEq, decide_eq_false_iff_not] at h
    refine ⟨⟨?_, ?_, ?_, ?_⟩, ?_⟩ <;>
      simp only [pattern, leadingOne_eq, infinityBits_eq, minExponent_eq] <;> omega

/-! ## 2. Scaling -/

theorem scale_den_pos {num den : ℕ} (hden : 0 < den) (e : ℤ) : 0 < (scale num den e).2 := by
  simp only [scale, Nat.shiftLeft_eq]
  positivity

theorem zpow_eq_div (b : ℚ) (e : ℤ) : b ^ e = b ^ e.toNat / b ^ (-e).toNat := by
  obtain ⟨k, rfl | rfl⟩ := e.eq_nat_or_neg
  · simp
  · simp [zpow_neg]

theorem scale_ratio (num den : ℕ) (e : ℤ) :
    ((scale num den e).1 : ℚ) / (scale num den e).2 = num / den / 2 ^ e := by
  simp only [scale, Nat.shiftLeft_eq, Nat.cast_mul, Nat.cast_pow, Nat.cast_ofNat]
  rw [zpow_eq_div 2 e]
  field_simp

/-! ## 3. The nearest integer -/

/-- The fraction rounds to the integer. -/
structure RoundsTo (v : ℚ) (k : ℕ) : Prop where
  low : k - 1 / 2 ≤ v
  high : v ≤ k + 1 / 2
  tie : k % 2 = 1 → k - 1 / 2 < v ∧ v < k + 1 / 2

/-- In natural numbers, with everything doubled. -/
theorem roundsTo_div_iff {num den k : ℕ} (hden : 0 < den) :
    RoundsTo (num / den) k ↔
      2 * (k * den) ≤ 2 * num + den ∧ 2 * num ≤ 2 * (k * den) + den ∧
        (k % 2 = 1 → 2 * (k * den) < 2 * num + den ∧ 2 * num < 2 * (k * den) + den) := by
  have hpos : (0 : ℚ) < den := by exact_mod_cast hden
  have hlow : (k - 1 / 2 : ℚ) ≤ num / den ↔ 2 * (k * den) ≤ 2 * num + den := by
    rw [le_div_iff₀ hpos, ← @Nat.cast_le ℚ]
    push_cast
    constructor <;> intro h <;> linarith
  have hhigh : (num / den : ℚ) ≤ k + 1 / 2 ↔ 2 * num ≤ 2 * (k * den) + den := by
    rw [div_le_iff₀ hpos, ← @Nat.cast_le ℚ]
    push_cast
    constructor <;> intro h <;> linarith
  have hlow' : (k - 1 / 2 : ℚ) < num / den ↔ 2 * (k * den) < 2 * num + den := by
    rw [lt_div_iff₀ hpos, ← @Nat.cast_lt ℚ]
    push_cast
    constructor <;> intro h <;> linarith
  have hhigh' : (num / den : ℚ) < k + 1 / 2 ↔ 2 * num < 2 * (k * den) + den := by
    rw [div_lt_iff₀ hpos, ← @Nat.cast_lt ℚ]
    push_cast
    constructor <;> intro h <;> linarith
  rw [← hlow, ← hhigh, ← hlow', ← hhigh']
  exact ⟨fun h => ⟨h.low, h.high, h.tie⟩, fun h => ⟨h.1, h.2.1, h.2.2⟩⟩

/-- A fraction rounds to the integer nearest to it. -/
theorem roundsTo_roundHalfEven (num : ℕ) {den : ℕ} (hden : 0 < den) :
    RoundsTo (num / den) (roundHalfEven num den) := by
  rw [roundsTo_div_iff hden]
  have hdiv := Nat.div_add_mod num den
  have hmod := Nat.mod_lt num hden
  have hsucc := Nat.add_one_mul (num / den) den
  unfold roundHalfEven
  generalize num / den = q at *
  generalize num % den = r at *
  rw [Nat.mul_comm] at hdiv
  simp only
  -- up to the middle it is the quotient, past it the next integer
  split
  · refine ⟨?_, ?_, fun hodd => ⟨?_, ?_⟩⟩ <;> omega
  · refine ⟨?_, ?_, fun hodd => ⟨?_, ?_⟩⟩ <;> omega

theorem RoundsTo.le {v : ℚ} {k k' : ℕ} (h : RoundsTo v k) (h' : RoundsTo v k') : k ≤ k' := by
  by_contra hlt
  have hlow := h.low
  have hhigh := h'.high
  have hge : (k' : ℚ) + 1 ≤ k := by exact_mod_cast Nat.not_le.mp hlt
  have hle : (k : ℚ) ≤ k' + 1 := by linarith
  have hsucc : k = k' + 1 := by exact_mod_cast le_antisymm hle hge
  -- the fraction is half way between the two, and one of them is odd
  by_cases hodd : k' % 2 = 1
  · have htie := (h'.tie hodd).2
    linarith
  · have htie := (h.tie (by omega)).1
    linarith

theorem roundHalfEven_eq {num den k : ℕ} (hden : 0 < den) (h : RoundsTo (num / den) k) :
    roundHalfEven num den = k :=
  le_antisymm ((roundsTo_roundHalfEven num hden).le h) (h.le (roundsTo_roundHalfEven num hden))

/-! ## 4. The exponent -/

/-- A quotient is known from the bit lengths up to a factor of two. -/
theorem div_bounds {num den : ℕ} (hnum : 0 < num) (hden : 0 < den) :
    (2 : ℚ) ^ ((num.log2 : ℤ) - den.log2 - 1) < num / den ∧
      (num / den : ℚ) < 2 ^ ((num.log2 : ℤ) - den.log2 + 1) := by
  have hpos : (0 : ℚ) < den := by exact_mod_cast hden
  have hnumLow : (2 : ℚ) ^ (num.log2 : ℤ) ≤ num := by exact_mod_cast Nat.log2_self_le hnum.ne'
  have hnumHigh : (num : ℚ) < 2 ^ (num.log2 + 1 : ℤ) := by exact_mod_cast Nat.lt_log2_self
  have hdenLow : (2 : ℚ) ^ (den.log2 : ℤ) ≤ den := by exact_mod_cast Nat.log2_self_le hden.ne'
  have hdenHigh : (den : ℚ) < 2 ^ (den.log2 + 1 : ℤ) := by exact_mod_cast Nat.lt_log2_self
  constructor
  · rw [lt_div_iff₀ hpos]
    calc (2 : ℚ) ^ ((num.log2 : ℤ) - den.log2 - 1) * den
        < 2 ^ ((num.log2 : ℤ) - den.log2 - 1) * 2 ^ (den.log2 + 1 : ℤ) :=
          mul_lt_mul_of_pos_left hdenHigh (by positivity)
      _ = 2 ^ (num.log2 : ℤ) := by
          rw [← zpow_add₀ two_ne_zero]
          congr 1
          omega
      _ ≤ num := hnumLow
  · rw [div_lt_iff₀ hpos]
    calc (num : ℚ) < 2 ^ (num.log2 + 1 : ℤ) := hnumHigh
      _ = 2 ^ ((num.log2 : ℤ) - den.log2 + 1) * 2 ^ (den.log2 : ℤ) := by
          rw [← zpow_add₀ two_ne_zero]
          congr 1
          omega
      _ ≤ 2 ^ ((num.log2 : ℤ) - den.log2 + 1) * den :=
          mul_le_mul_of_nonneg_left hdenLow (by positivity)

theorem cast_div_lt_iff {n d k : ℕ} (hd : 0 < d) : n / d < k ↔ (n : ℚ) / d < k := by
  rw [Nat.div_lt_iff_lt_mul hd, div_lt_iff₀ (by exact_mod_cast hd)]
  exact_mod_cast Iff.rfl

theorem leadingOne_mul_zpow (e : ℤ) : (leadingOne : ℚ) * 2 ^ e = 2 ^ (e + 52) := by
  rw [zpow_add₀ two_ne_zero, leadingOne_eq_two_pow]
  push_cast
  ring

/-- At its full exponent a fraction has a significand of 53 bits. -/
theorem fullExponent_spec {num den : ℕ} (hnum : 0 < num) (hden : 0 < den) :
    leadingOne * (2 : ℚ) ^ fullExponent num den ≤ num / den ∧
      (num / den : ℚ) < leadingOne * 2 ^ (fullExponent num den + 1) := by
  have hbounds := div_bounds hnum hden
  unfold fullExponent
  generalize he : (num.log2 : ℤ) - den.log2 - 53 = e
  have hlow : (leadingOne : ℚ) * 2 ^ e ≤ num / den := by
    rw [leadingOne_mul_zpow, show e + 52 = (num.log2 : ℤ) - den.log2 - 1 by omega]
    exact hbounds.1.le
  have hhigh : (num / den : ℚ) < leadingOne * 2 ^ (e + 1 + 1) := by
    rw [leadingOne_mul_zpow, show e + 1 + 1 + 52 = (num.log2 : ℤ) - den.log2 + 1 by omega]
    exact hbounds.2
  have hdiv : (scale num den e).1 / (scale num den e).2 < 2 * leadingOne ↔
      (num / den : ℚ) < leadingOne * 2 ^ (e + 1) := by
    rw [cast_div_lt_iff (scale_den_pos hden e), scale_ratio, div_lt_iff₀ (by positivity),
      zpow_add_one₀ two_ne_zero, Nat.cast_mul, Nat.cast_two, mul_comm (2 ^ e) (2 : ℚ), ← mul_assoc,
      mul_comm (2 : ℚ)]
  simp only
  split
  next hlt => exact ⟨hlow, hdiv.mp hlt⟩
  next hge => exact ⟨not_lt.mp (mt hdiv.mpr hge), hhigh⟩

theorem exponent_lt {v : ℚ} {a b : ℤ} (ha : leadingOne * (2 : ℚ) ^ a ≤ v)
    (hb : v < leadingOne * (2 : ℚ) ^ b) : a < b := by
  rw [leadingOne_mul_zpow] at ha hb
  have := (zpow_lt_zpow_iff_right₀ (one_lt_two (α := ℚ))).mp (lt_of_le_of_lt ha hb)
  omega

theorem zpow_eq_two_mul (e : ℤ) : (2 : ℚ) ^ e = 2 * 2 ^ (e - 1) := by
  rw [← zpow_one_add₀ two_ne_zero, add_sub_cancel]

/-! ## 5. The nearest double -/

/-- The fraction is so close to a double that it rounds to it. -/
structure Rounds (v : ℚ) (significand : ℕ) (exponent : ℤ) : Prop where
  low : (significand - 1 / 2) * 2 ^ exponent ≤ v
  high : v ≤ (significand + 1 / 2) * 2 ^ exponent
  tie : significand % 2 = 1 →
    (significand - 1 / 2) * 2 ^ exponent < v ∧ v < (significand + 1 / 2) * 2 ^ exponent
  power : significand = leadingOne → minExponent < exponent →
    (significand - 1 / 4) * 2 ^ exponent ≤ v

section Nearest

variable {num den significand : ℕ} {exponent : ℤ}

theorem Rounds.pos {v : ℚ} (h : Rounds v significand exponent) (hpos : 0 < significand) : 0 < v := by
  have hone : (1 : ℚ) ≤ significand := by exact_mod_cast hpos
  have hpow : (0 : ℚ) < 2 ^ exponent := by positivity
  have hhalf : (0 : ℚ) < (significand - 1 / 2) * 2 ^ exponent := mul_pos (by linarith) hpow
  exact lt_of_lt_of_le hhalf h.low

/-- A fraction is rounded at the exponent of the double, or, if the double is a power of two and the
fraction lies below it, one lower. -/
theorem roundingExponent_cases (hnum : 0 < num) (hden : 0 < den)
    (hcanonical : Canonical significand exponent) (h : Rounds (num / den) significand exponent) :
    roundingExponent num den = exponent ∨
      significand = leadingOne ∧ minExponent < exponent ∧
        (num / den : ℚ) < leadingOne * 2 ^ exponent ∧ roundingExponent num den = exponent - 1 := by
  have hspec := fullExponent_spec hnum hden
  have hpos : (0 : ℚ) < 2 ^ exponent := by positivity
  have hmin := hcanonical.exponent_ge
  have hle : fullExponent num den ≤ exponent := by
    have hlt : (significand : ℚ) + 1 ≤ 2 * leadingOne := by
      exact_mod_cast hcanonical.significand_lt
    have := exponent_lt (b := exponent + 1) hspec.1 (by
      rw [zpow_add_one₀ two_ne_zero]
      nlinarith [h.high])
    omega
  unfold roundingExponent
  by_cases hlowest : exponent = minExponent
  · left
    omega
  have hfull := hcanonical.full (by omega)
  by_cases hbelow : (num / den : ℚ) < leadingOne * 2 ^ exponent
  · right
    have heq : significand = leadingOne := by
      by_contra hne
      have hsucc : (leadingOne : ℚ) + 1 ≤ significand := by
        exact_mod_cast lt_of_le_of_ne hfull (Ne.symm hne)
      nlinarith [h.low]
    have hhalf : leadingOne * (2 : ℚ) ^ (exponent - 1) ≤ num / den := by
      have hpower := h.power heq (by omega)
      have hone : (1 : ℚ) ≤ leadingOne := by exact_mod_cast (by decide : 1 ≤ leadingOne)
      rw [heq, zpow_eq_two_mul] at hpower
      have hhalfPos : (0 : ℚ) < 2 ^ (exponent - 1) := by positivity
      nlinarith
    have h₁ := exponent_lt hhalf hspec.2
    have h₂ := exponent_lt hspec.1 hbelow
    refine ⟨heq, by omega, hbelow, by omega⟩
  · left
    have := exponent_lt (not_lt.mp hbelow) hspec.2
    omega

theorem Rounds.roundsTo {v : ℚ} (h : Rounds v significand exponent) :
    RoundsTo (v / 2 ^ exponent) significand := by
  have hpos : (0 : ℚ) < 2 ^ exponent := by positivity
  refine ⟨?_, ?_, fun hodd => ⟨?_, ?_⟩⟩
  · exact (le_div_iff₀ hpos).mpr h.low
  · exact (div_le_iff₀ hpos).mpr h.high
  · exact (lt_div_iff₀ hpos).mpr (h.tie hodd).1
  · exact (div_lt_iff₀ hpos).mpr (h.tie hodd).2

/-- One exponent lower, the significand of a power of two is twice as large. -/
theorem Rounds.roundsTo_pred {v : ℚ} (h : Rounds v leadingOne exponent)
    (hlt : minExponent < exponent) (hbelow : v < leadingOne * 2 ^ exponent) :
    RoundsTo (v / 2 ^ (exponent - 1)) (2 * leadingOne) := by
  have hpos : (0 : ℚ) < 2 ^ (exponent - 1) := by positivity
  have hpower := h.power rfl hlt
  rw [zpow_eq_two_mul] at hpower hbelow
  refine ⟨?_, ?_, fun hodd => ?_⟩
  · rw [le_div_iff₀ hpos]
    push_cast
    linarith
  · rw [div_le_iff₀ hpos]
    push_cast
    linarith
  · omega

/-- Such a significand carries into the exponent. -/
theorem pattern_leadingOne (hlt : minExponent < exponent) :
    (exponent - 1 - minExponent).toNat * leadingOne + 2 * leadingOne =
      pattern leadingOne exponent := by
  have hsucc : (exponent - minExponent).toNat = (exponent - 1 - minExponent).toNat + 1 := by omega
  have hmul := Nat.add_one_mul (exponent - 1 - minExponent).toNat leadingOne
  unfold pattern
  rw [hsucc]
  omega

theorem nearestBits_eq (hnum : 0 < num) (hden : 0 < den)
    (hcanonical : Canonical significand exponent) (h : Rounds (num / den) significand exponent) :
    nearestBits num den = pattern significand exponent := by
  have hfinite := hcanonical.finite
  unfold nearestBits
  rw [if_neg hnum.ne']
  simp only
  obtain he | ⟨heq, hlt, hbelow, he⟩ := roundingExponent_cases hnum hden hcanonical h
  · have hround := h.roundsTo
    rw [← scale_ratio] at hround
    rw [he, roundHalfEven_eq (scale_den_pos hden exponent) hround]
    exact min_eq_left hfinite.le
  · rw [heq] at h hfinite
    have hround := h.roundsTo_pred hlt hbelow
    rw [← scale_ratio] at hround
    rw [he, roundHalfEven_eq (scale_den_pos hden _) hround, pattern_leadingOne hlt, heq]
    exact min_eq_left hfinite.le

/-- A fraction close enough to a double is read as that double. -/
theorem nearest_eq {x : Float} (hx : ofFloat x = .finite false significand exponent)
    (hnum : 0 < num) (hden : 0 < den) (h : Rounds (num / den) significand exponent) :
    nearest num den = x := by
  obtain ⟨hcanonical, hbits⟩ := ofFloat_eq_finite hx
  unfold nearest
  rw [nearestBits_eq hnum hden hcanonical h, ← hbits]
  simp

end Nearest

theorem nearestBits_le (num den : ℕ) : nearestBits num den ≤ infinityBits := by
  unfold nearestBits
  split
  · exact Nat.zero_le _
  · exact Nat.min_le_right _ _

/-! ## 6. Bit patterns -/

/-- Up to the pattern of infinity there is none of what is not a number. -/
theorem isNaNBits_eq_false {bits : BitVec 64} (h : bits.toNat ≤ infinityBits) :
    @Float.Model.UnpackedFloat.isNaNBits .binary64 bits = false := by
  have hinfinity := infinityBits_eq
  rw [Float.Model.UnpackedFloat.isNaNBits, decide_eq_false_iff_not,
    Float.Model.UnpackedFloat.unpackExponent_def, Float.Model.UnpackedFloat.unpackMantissa_def]
  rintro ⟨hexponent, hmantissa⟩
  -- with all ones in the exponent, only infinity itself is small enough
  apply hmantissa
  apply BitVec.eq_of_toNat_eq
  have hfield := congrArg BitVec.toNat hexponent
  rw [BitVec.extractLsb'_toNat, Nat.shiftRight_eq_div_pow] at hfield ⊢
  change bits.toNat / 2 ^ 52 % 2 ^ 11 = 2047 at hfield
  change bits.toNat / 2 ^ 0 % 2 ^ 52 = 0
  omega

theorem toBits_ofBits {bits : UInt64} (h : bits.toNat ≤ infinityBits) :
    (Float.ofBits bits).toBits = bits := by
  have hpack := @Float.Model.UnpackedFloat.pack_unpack .binary64 bits.toBitVec
  rw [isNaNBits_eq_false h, if_neg (by decide)] at hpack
  exact congrArg UInt64.ofBitVec hpack

/-- The double past all finite ones. -/
def infinity : Float := Float.ofBits (UInt64.ofNat infinityBits)

theorem ofFloat_infinity : ofFloat infinity = .infinite false := by
  decide +kernel

/-- The patterns below that of infinity stand for finite doubles without a sign. -/
theorem exists_ofFloat_ofBits {bits : ℕ} (h : bits < infinityBits) :
    ∃ significand exponent,
      ofFloat (Float.ofBits (UInt64.ofNat bits)) = .finite false significand exponent := by
  have hinfinity := infinityBits_eq
  have hnat : (UInt64.ofNat bits).toNat = bits := by
    rw [UInt64.toNat_ofNat']
    omega
  have hbits : (Float.ofBits (UInt64.ofNat bits)).toBits.toNat = bits := by
    rw [toBits_ofBits (by omega), hnat]
  simp only [ofFloat, hbits, leadingOne_eq, Nat.reduceShiftLeft]
  rw [if_neg (by omega), decide_eq_false (by omega)]
  split
  · exact ⟨_, _, rfl⟩
  · exact ⟨_, _, rfl⟩

end Binary64
end Credence
