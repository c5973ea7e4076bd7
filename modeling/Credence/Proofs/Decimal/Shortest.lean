import Mathlib
import Credence.Decimal.Shortest
import Credence.Proofs.Binary64

/-!
# Shortest decimals read back

A grid point is taken only if it lies in the rounding interval of the double, and on the last grid
the double itself is a point. So the decimal that is found rounds to the double it was found for.
-/

namespace Credence

namespace Decimal

/-- The exact value of a decimal. -/
def value (d : Decimal) : ℚ := d.digits * 10 ^ d.exponent

theorem powTen_pos (k : ℕ) : 0 < powTen k := Nat.pow_pos (by decide)

theorem cast_powTen (k : ℕ) : (powTen k : ℚ) = 10 ^ k := by
  unfold powTen
  rw [Nat.pow_eq, Nat.cast_pow, Nat.cast_ofNat]

theorem value_eq_div (d : Decimal) :
    d.value = (d.digits * powTen d.exponent.toNat : ℕ) / (powTen (-d.exponent).toNat : ℕ) := by
  unfold value
  rw [Nat.cast_mul, cast_powTen, cast_powTen, mul_div_assoc, ← Binary64.zpow_eq_div]

theorem toFloat_eq {d : Decimal} {x : Float} {significand : ℕ} {exponent : ℤ}
    (hx : Binary64.ofFloat x = .finite false significand exponent) (hpos : 0 < significand)
    (h : Binary64.Rounds d.value significand exponent) : d.toFloat = x := by
  have hdigits : d.digits ≠ 0 := by
    intro hzero
    have hvalue := h.pos hpos
    rw [value, hzero, Nat.cast_zero, zero_mul] at hvalue
    exact lt_irrefl 0 hvalue
  rw [value_eq_div] at h
  apply Binary64.nearest_eq hx _ (powTen_pos _) h
  exact Nat.mul_pos (Nat.pos_of_ne_zero hdigits) (powTen_pos _)

end Decimal

namespace RoundingInterval

/-! ## 1. The interval -/

/-- The fraction lies in the interval. -/
structure Contains (i : RoundingInterval) (v : ℚ) : Prop where
  low : i.lower * 2 ^ i.exponent ≤ v
  high : v ≤ i.upper * 2 ^ i.exponent
  inside : i.closed = false → i.lower * 2 ^ i.exponent < v ∧ v < i.upper * 2 ^ i.exponent

section OfFinite

variable {significand : ℕ} {exponent : ℤ}

theorem le_lower_ofFinite (significand : ℕ) (exponent : ℤ) :
    (4 * significand - 2 : ℚ) ≤ (ofFinite significand exponent).lower := by
  have hnat : 4 * significand ≤ (ofFinite significand exponent).lower + 2 := by
    simp only [ofFinite]
    split <;> omega
  have hcast : (4 * significand : ℚ) ≤ (ofFinite significand exponent).lower + 2 := by
    exact_mod_cast hnat
  linarith

theorem le_lower_ofFinite_power (hpower : significand = Binary64.leadingOne)
    (hlt : Binary64.minExponent < exponent) :
    (4 * significand - 1 : ℚ) ≤ (ofFinite significand exponent).lower := by
  have hnat : 4 * significand ≤ (ofFinite significand exponent).lower + 1 := by
    simp only [ofFinite]
    rw [if_pos ⟨hpower, hlt⟩]
    omega
  have hcast : (4 * significand : ℚ) ≤ (ofFinite significand exponent).lower + 1 := by
    exact_mod_cast hnat
  linarith

theorem upper_ofFinite (significand : ℕ) (exponent : ℤ) :
    ((ofFinite significand exponent).upper : ℚ) = 4 * significand + 2 := by
  simp [ofFinite]

/-- What lies in the interval around a double rounds to it. -/
theorem Contains.rounds {v : ℚ} (h : (ofFinite significand exponent).Contains v) :
    Binary64.Rounds v significand exponent := by
  -- a unit of the interval is a quarter of a place
  have hquarter : (2 : ℚ) ^ exponent = 4 * 2 ^ (exponent - 2) := by
    rw [show (4 : ℚ) = 2 ^ (2 : ℤ) by norm_num, ← zpow_add₀ two_ne_zero, add_sub_cancel]
  have hunit : (0 : ℚ) ≤ 2 ^ (exponent - 2) := by positivity
  have hlower := mul_le_mul_of_nonneg_right (le_lower_ofFinite significand exponent) hunit
  have hlow : (ofFinite significand exponent).lower * (2 : ℚ) ^ (exponent - 2) ≤ v := h.low
  have hhigh : v ≤ (ofFinite significand exponent).upper * (2 : ℚ) ^ (exponent - 2) := h.high
  rw [upper_ofFinite] at hhigh
  refine ⟨?_, ?_, fun hodd => ?_, fun hpower hlt => ?_⟩
  · rw [hquarter]
    linarith
  · rw [hquarter]
    linarith
  · have hopen : (ofFinite significand exponent).closed = false := by simp [ofFinite, hodd]
    have hinside : (ofFinite significand exponent).lower * (2 : ℚ) ^ (exponent - 2) < v ∧
        v < (ofFinite significand exponent).upper * (2 : ℚ) ^ (exponent - 2) := h.inside hopen
    rw [upper_ofFinite] at hinside
    rw [hquarter]
    constructor <;> linarith
  · have hlower' := mul_le_mul_of_nonneg_right (le_lower_ofFinite_power hpower hlt) hunit
    rw [hquarter]
    linarith

theorem lower_lt_center_ofFinite (hpos : 0 < significand) (exponent : ℤ) :
    (ofFinite significand exponent).lower < (ofFinite significand exponent).center := by
  simp only [ofFinite]
  split <;> omega

theorem center_lt_upper_ofFinite (significand : ℕ) (exponent : ℤ) :
    (ofFinite significand exponent).center < (ofFinite significand exponent).upper := by
  simp only [ofFinite]
  omega

end OfFinite

/-! ## 2. Grids -/

theorem unitFactor_pos (i : RoundingInterval) (e : ℤ) : 0 < i.unitFactor e := by
  have := Decimal.powTen_pos (-e).toNat
  simp only [unitFactor, Nat.shiftLeft_eq]
  positivity

theorem cast_mul_unitFactor (i : RoundingInterval) (e : ℤ) (units : ℕ) :
    ((units * i.unitFactor e : ℕ) : ℚ) * 2 ^ i.exponent =
      units * 2 ^ i.exponent * i.unitFactor e := by
  rw [Nat.cast_mul, mul_right_comm]

theorem cast_mul_stepFactor (i : RoundingInterval) (e : ℤ) (points : ℕ) :
    ((points * i.stepFactor e : ℕ) : ℚ) * 2 ^ i.exponent =
      points * 10 ^ e * i.unitFactor e := by
  simp only [stepFactor, unitFactor, Nat.shiftLeft_eq, Nat.cast_mul, Nat.cast_pow, Nat.cast_ofNat,
    Decimal.cast_powTen]
  rw [Binary64.zpow_eq_div 2, Binary64.zpow_eq_div 10]
  field_simp

/-- Points of a grid and units of the interval are compared on a common scale. -/
theorem unit_le_step_iff (i : RoundingInterval) (e : ℤ) (units points : ℕ) :
    units * i.unitFactor e ≤ points * i.stepFactor e ↔
      (units : ℚ) * 2 ^ i.exponent ≤ points * 10 ^ e := by
  have hunit : (0 : ℚ) < i.unitFactor e := by exact_mod_cast i.unitFactor_pos e
  have hpow : (0 : ℚ) < 2 ^ i.exponent := by positivity
  rw [← Nat.cast_le (α := ℚ), ← mul_le_mul_iff_left₀ hpow, cast_mul_unitFactor,
    cast_mul_stepFactor, mul_le_mul_iff_left₀ hunit]

theorem step_le_unit_iff (i : RoundingInterval) (e : ℤ) (units points : ℕ) :
    points * i.stepFactor e ≤ units * i.unitFactor e ↔
      (points : ℚ) * 10 ^ e ≤ units * 2 ^ i.exponent := by
  have hunit : (0 : ℚ) < i.unitFactor e := by exact_mod_cast i.unitFactor_pos e
  have hpow : (0 : ℚ) < 2 ^ i.exponent := by positivity
  rw [← Nat.cast_le (α := ℚ), ← mul_le_mul_iff_left₀ hpow, cast_mul_unitFactor,
    cast_mul_stepFactor, mul_le_mul_iff_left₀ hunit]

theorem contains_of_contains {i : RoundingInterval} {e : ℤ} {point : ℕ}
    (h : i.contains e point = true) : i.Contains (point * 10 ^ e) := by
  unfold contains at h
  simp only at h
  split at h
  next hclosed =>
    rw [Bool.and_eq_true, decide_eq_true_iff, decide_eq_true_iff, unit_le_step_iff,
      step_le_unit_iff] at h
    exact ⟨h.1, h.2, fun hopen => absurd hopen (by simp [hclosed])⟩
  next =>
    rw [Bool.and_eq_true, decide_eq_true_iff, decide_eq_true_iff, ← not_le, ← not_le,
      unit_le_step_iff, step_le_unit_iff, not_le, not_le] at h
    exact ⟨h.1.le, h.2.le, fun _ => h⟩

theorem contains_of_gridPoint? {i : RoundingInterval} {e : ℤ} {point : ℕ}
    (h : i.gridPoint? e = some point) : i.contains e point = true := by
  unfold gridPoint? at h
  simp only at h
  split at h
  next hbelow habove =>
    split at h <;>
      · cases h
        assumption
  next hbelow _ =>
    cases h
    exact hbelow
  next _ habove =>
    cases h
    exact habove
  next => cases h

/-! ## 3. The search -/

/-- On the finest grid the double is a point. -/
theorem floor_finest (i : RoundingInterval) :
    (i.floor i.finest : ℚ) * 10 ^ i.finest = i.center * 2 ^ i.exponent := by
  have hdvd : i.stepFactor i.finest ∣ i.center * i.unitFactor i.finest := by
    apply Dvd.dvd.mul_left
    unfold finest stepFactor unitFactor Decimal.powTen
    simp only [Nat.shiftLeft_eq, Nat.pow_eq]
    by_cases hexp : 0 ≤ i.exponent
    · rw [min_eq_right hexp]
      simp [show (-i.exponent).toNat = 0 by omega]
    · rw [min_eq_left (by omega), show i.exponent.toNat = 0 by omega, pow_zero, one_mul, pow_zero,
        mul_one]
      exact pow_dvd_pow_of_dvd (by decide) _
  have hmul : i.floor i.finest * i.stepFactor i.finest = i.center * i.unitFactor i.finest :=
    Nat.div_mul_cancel hdvd
  apply le_antisymm
  · exact (i.step_le_unit_iff _ _ _).mp hmul.le
  · exact (i.unit_le_step_iff _ _ _).mp hmul.ge

theorem search_contains {i : RoundingInterval} (hlow : i.lower < i.center)
    (hhigh : i.center < i.upper) {steps : ℕ} {e : ℤ} (he : e - steps = i.finest) :
    i.Contains (i.search steps e).value := by
  -- the steps left lead to the finest grid, so the last one ends at the double itself
  induction steps generalizing e with
  | zero =>
    have hfinest : e = i.finest := by
      rw [← he]
      simp
    have hpow : (0 : ℚ) < 2 ^ i.exponent := by positivity
    have hlow' : (i.lower : ℚ) * 2 ^ i.exponent < i.center * 2 ^ i.exponent :=
      mul_lt_mul_of_pos_right (by exact_mod_cast hlow) hpow
    have hhigh' : (i.center : ℚ) * 2 ^ i.exponent < i.upper * 2 ^ i.exponent :=
      mul_lt_mul_of_pos_right (by exact_mod_cast hhigh) hpow
    show i.Contains (i.floor e * 10 ^ e)
    rw [hfinest, floor_finest]
    exact ⟨hlow'.le, hhigh'.le, fun _ => ⟨hlow', hhigh'⟩⟩
  | succ steps ih =>
    unfold search
    split
    next point hpoint => exact contains_of_contains (contains_of_gridPoint? hpoint)
    next =>
      apply ih
      omega

theorem finest_le_coarsest (i : RoundingInterval) : i.finest ≤ i.coarsest := by
  unfold finest coarsest
  omega

theorem shortest_contains {i : RoundingInterval} (hlow : i.lower < i.center)
    (hhigh : i.center < i.upper) : i.Contains i.shortest.value := by
  have hle := i.finest_le_coarsest
  apply search_contains hlow hhigh
  omega

end RoundingInterval

/-- The shortest decimal of a positive double reads back as that double. -/
theorem Decimal.toFloat_shortest {x : Float} {significand : ℕ} {exponent : ℤ}
    (hx : Binary64.ofFloat x = .finite false significand exponent) (hpos : 0 < significand) :
    (Decimal.shortest significand exponent).toFloat = x := by
  have hcontains := RoundingInterval.shortest_contains
    (RoundingInterval.lower_lt_center_ofFinite hpos exponent)
    (RoundingInterval.center_lt_upper_ofFinite significand exponent)
  exact Decimal.toFloat_eq hx hpos hcontains.rounds

end Credence
