import Mathlib
import Credence.Decimal.Text
import Credence.Proofs.Binary64.Nearest
import Credence.Proofs.Decimal.Scanning

/-!
# Numerals and doubles

A numeral is read as the double nearest to what its digits stand for. A decimal written out is a
numeral, and its digits count the same value. So the text of a finite double without a sign is read
as that double. All other texts of doubles begin with a sign or a letter, and no numeral does.
-/

namespace Credence

/-! ## 1. What a numeral stands for -/

namespace Numeral

/-- The digits before the point count wholes, and those after it the fractions of one. -/
def exact (n : Numeral) : ℚ :=
  Nat.ofDigitChars 10 n.whole 0 + Nat.ofDigitChars 10 n.fraction 0 / 10 ^ n.fraction.length

theorem ofDigits_eq (digits : List Char) : ofDigits digits = Nat.ofDigitChars 10 digits 0 :=
  Nat.ofDigitChars_eq_foldl.symm

theorem value_value (n : Numeral) : n.value.value = n.exact := by
  have hdigits : Nat.ofDigitChars 10 (n.whole ++ n.fraction) 0 =
      10 ^ n.fraction.length * Nat.ofDigitChars 10 n.whole 0 + Nat.ofDigitChars 10 n.fraction 0 := by
    rw [Nat.ofDigitChars_append, Nat.ofDigitChars_eq_ofDigitChars_zero]
  unfold value exact Decimal.value
  rw [ofDigits_eq, hdigits, zpow_neg, zpow_natCast]
  push_cast
  field_simp

/-- A numeral is read as the double nearest to what its digits stand for. -/
theorem isNearest_toFloat (n : Numeral) : Binary64.IsNearest n.exact n.value.toFloat := by
  rw [← value_value]
  exact n.value.isNearest_toFloat

end Numeral

/-! ## 2. Decimals written out -/

namespace Decimal

def places (d : Decimal) : ℕ := (-d.exponent).toNat

/-- The digits, with zeros in front of them if they would not reach past the point. -/
def padded (d : Decimal) : List Char :=
  List.replicate (d.places + 1 - (Nat.toDigits 10 d.digits).length) '0' ++
    Nat.toDigits 10 d.digits

/-- The numeral that a decimal is written as. -/
def numeral (d : Decimal) : Numeral :=
  if d.places = 0 then ⟨Nat.toDigits 10 d.digits ++ List.replicate d.exponent.toNat '0', []⟩
  else ⟨d.padded.take (d.padded.length - d.places), d.padded.drop (d.padded.length - d.places)⟩

theorem lt_length_padded (d : Decimal) : d.places < d.padded.length := by
  unfold padded
  rw [List.length_append, List.length_replicate]
  omega

theorem length_fraction (d : Decimal) : d.numeral.fraction.length = d.places := by
  have hlt := d.lt_length_padded
  unfold numeral
  by_cases hplaces : d.places = 0
  · rw [if_pos hplaces, hplaces]
    rfl
  · rw [if_neg hplaces, List.length_drop]
    omega

theorem text_numeral (d : Decimal) : d.numeral.text = d.positional := by
  have hlength := d.length_fraction
  unfold positional
  by_cases hplaces : d.places = 0
  · simp only [numeral, if_pos hplaces]
    rw [if_pos (show (-d.exponent).toNat = 0 from hplaces)]
    rfl
  · rw [Numeral.text_of_ne_nil (List.ne_nil_of_length_pos (by omega))]
    simp only [numeral, if_neg hplaces]
    rw [if_neg (show (-d.exponent).toNat ≠ 0 from hplaces)]
    rfl

theorem isDigit_of_mem_zeros {k : ℕ} {c : Char} (h : c ∈ List.replicate k '0') :
    c.isDigit = true := by
  rw [List.eq_of_mem_replicate h]
  rfl

theorem isDigit_of_mem_toDigits {k : ℕ} {c : Char} (h : c ∈ Nat.toDigits 10 k) :
    c.isDigit = true :=
  Nat.isDigit_of_mem_toDigits (by decide) (by decide) h

theorem isDigit_of_mem_padded {d : Decimal} {c : Char} (h : c ∈ d.padded) : c.isDigit = true := by
  cases List.mem_append.mp h with
  | inl hzero => exact isDigit_of_mem_zeros hzero
  | inr hdigit => exact isDigit_of_mem_toDigits hdigit

theorem proper_numeral (d : Decimal) : d.numeral.Proper := by
  have hlt := d.lt_length_padded
  unfold numeral
  by_cases hplaces : d.places = 0
  · rw [if_pos hplaces]
    refine ⟨fun c hc => ?_, fun c hc => absurd hc List.not_mem_nil, fun _ => ?_⟩
    · cases List.mem_append.mp hc with
      | inl hdigit => exact isDigit_of_mem_toDigits hdigit
      | inr hzero => exact isDigit_of_mem_zeros hzero
    · exact List.append_ne_nil_of_left_ne_nil Nat.toDigits_ne_nil _
  · rw [if_neg hplaces]
    refine ⟨fun c hc => ?_, fun c hc => ?_, fun hnil => ?_⟩
    · exact isDigit_of_mem_padded (List.mem_of_mem_take hc)
    · exact isDigit_of_mem_padded (List.mem_of_mem_drop hc)
    · rw [List.drop_eq_nil_iff] at hnil
      omega

theorem ofDigits_padded (d : Decimal) : Numeral.ofDigits d.padded = d.digits := by
  rw [Numeral.ofDigits_eq, padded, Nat.ofDigitChars_append, Nat.ofDigitChars_replicate_zero,
    Nat.mul_zero, Nat.ofDigitChars_ten_toDigits]

/-- The numeral that a decimal is written as has the value of the decimal. -/
theorem toFloat_value_numeral (d : Decimal) : d.numeral.value.toFloat = d.toFloat := by
  have hlength := d.length_fraction
  unfold numeral at hlength ⊢
  by_cases hplaces : d.places = 0
  · rw [if_pos hplaces]
    have hdigits : Numeral.ofDigits (Nat.toDigits 10 d.digits ++
        List.replicate d.exponent.toNat '0') = d.digits * powTen d.exponent.toNat := by
      rw [Numeral.ofDigits_eq, Nat.ofDigitChars_append, Nat.ofDigitChars_ten_toDigits,
        Nat.ofDigitChars_replicate_zero, Nat.mul_comm]
      rfl
    have hexponent : (-d.exponent).toNat = 0 := hplaces
    unfold Numeral.value toFloat
    rw [List.append_nil, hdigits, hexponent]
    show Binary64.nearest (d.digits * powTen d.exponent.toNat * 1) 1 = _
    rw [Nat.mul_one]
    rfl
  · rw [if_neg hplaces] at hlength ⊢
    have hexponent : -(d.places : ℤ) = d.exponent := by
      unfold places at *
      omega
    unfold Numeral.value
    simp only at hlength ⊢
    rw [List.take_append_drop, ofDigits_padded, hlength, hexponent]

end Decimal

/-! ## 3. Doubles written out -/

namespace Binary64

/-- The double is finite and has no sign. Zero is plain, and minus zero is not. -/
def Plain (x : Float) : Prop :=
  ∃ significand exponent, ofFloat x = .finite false significand exponent

theorem eq_of_finite_zero {x : Float} {exponent : ℤ} (hx : ofFloat x = .finite false 0 exponent) :
    Float.ofBits 0 = x := by
  obtain ⟨hcanonical, hbits⟩ := ofFloat_eq_finite hx
  have hexponent : exponent = minExponent := by
    have hmin := hcanonical.exponent_ge
    by_contra hne
    exact absurd (hcanonical.full (by omega)) (by decide)
  have hzero : x.toBits = 0 := by
    apply UInt64.toNat.inj
    rw [hbits, hexponent, pattern, sub_self]
    rfl
  rw [← hzero, Float.ofBits_toBits]

/-- The text of a plain double is a numeral, and is read as that double. -/
theorem Plain.exists_numeral {x : Float} (hx : Plain x) :
    ∃ n : Numeral, n.Proper ∧ n.text = (ofFloat x).text ∧ n.value.toFloat = x := by
  obtain ⟨significand, exponent, hx⟩ := hx
  rw [hx]
  show ∃ n : Numeral, n.Proper ∧ n.text = magnitudeText significand exponent ∧ n.value.toFloat = x
  unfold magnitudeText
  by_cases hzero : significand = 0
  · rw [if_pos hzero]
    rw [hzero] at hx
    have hproper : Numeral.Proper ⟨['0'], []⟩ :=
      ⟨List.forall_mem_singleton.mpr rfl, List.forall_mem_nil _, fun _ => List.cons_ne_nil _ _⟩
    refine ⟨⟨['0'], []⟩, hproper, rfl, ?_⟩
    rw [← eq_of_finite_zero hx]
    decide +kernel
  · rw [if_neg hzero]
    refine ⟨_, Decimal.proper_numeral _, Decimal.text_numeral _, ?_⟩
    rw [Decimal.toFloat_value_numeral, Decimal.toFloat_shortest hx (Nat.pos_of_ne_zero hzero)]

example : numberText (0.1 + 0.2) = "0.30000000000000004" := by decide +kernel

-- half way between the two shortest decimals, it is the upper one
example : numberText (1 / 33554432) = "0.000000029802322387695313" := by decide +kernel

/-- The texts of all other doubles begin with a sign or a letter. -/
theorem exists_text_eq_cons {x : Float} (hx : ¬ Plain x) :
    ∃ c rest, (ofFloat x).text = c :: rest ∧ (c = '-' ∨ c = 'i' ∨ c = 'N') := by
  cases hfloat : ofFloat x with
  | nan => exact ⟨'N', ['a', 'N'], rfl, .inr (.inr rfl)⟩
  | infinite negative =>
    cases negative with
    | false => exact ⟨'i', ['n', 'f'], rfl, .inr (.inl rfl)⟩
    | true => exact ⟨'-', ['i', 'n', 'f'], rfl, .inl rfl⟩
  | finite negative significand exponent =>
    cases negative with
    | false => exact absurd ⟨significand, exponent, hfloat⟩ hx
    | true => exact ⟨'-', magnitudeText significand exponent, rfl, .inl rfl⟩

theorem scan_text_eq_none {x : Float} (hx : ¬ Plain x) :
    Numeral.scan (ofFloat x).text = none := by
  obtain ⟨c, rest, htext, hc⟩ := exists_text_eq_cons hx
  rw [htext]
  obtain rfl | rfl | rfl := hc <;> exact Numeral.scan_eq_none rfl (by decide)

theorem not_plain_infinity : ¬ Plain infinity := by
  rintro ⟨significand, exponent, h⟩
  rw [ofFloat_infinity] at h
  cases h

/-- What a fraction is rounded to is plain, or past all finite doubles. -/
theorem nearest_cases (num den : ℕ) : Plain (nearest num den) ∨ nearest num den = infinity := by
  obtain hlt | heq := Nat.lt_or_eq_of_le (nearestBits_le num den)
  · exact .inl (exists_ofFloat_ofBits hlt)
  · right
    unfold nearest infinity
    rw [heq]

end Binary64

end Credence
