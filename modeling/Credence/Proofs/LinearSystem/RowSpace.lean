import Mathlib
import Credence.LinearSystem

/-!
# Row spaces

Rows of exact numbers as vectors. A row says that the probabilities of the cells, weighted with its
coefficients, add up to its constant. With minus one appended to the probabilities this is one dot
product that vanishes, so what a list of rows says depends only on the space that the rows span.
-/

namespace Credence

/-! ## 1. Exact scalars -/

theorem Scalar.abs_rat (x : ℚ) : Scalar.abs x = |x| := by
  change (if x < 0 then -x else x) = |x|
  split
  next h => exact (abs_of_neg h).symm
  next h => exact (abs_of_nonneg (not_lt.mp h)).symm

variable {n : ℕ}

/-! ## 2. Entries of rows -/

namespace Row

theorem get_injective : Function.Injective (Vector.get : Row ℚ n → Fin (n + 1) → ℚ) := by
  intro a b h
  apply Vector.ext
  intro i hi
  exact congrFun h ⟨i, hi⟩

theorem get_replicate_one : (Vector.replicate (n + 1) (1 : ℚ)).get = fun _ => 1 := by
  funext j
  simp [Vector.get]

theorem get_ofBits_castSucc (coefficients : Bits) (constant : ℚ) (i : Fin n) :
    (Row.ofBits coefficients constant : Row ℚ n).get i.castSucc =
      if coefficients.contains i then 1 else 0 := by
  have hi : (i : ℕ) ≠ n := i.isLt.ne
  simp only [Row.ofBits, Vector.get_eq_getElem, Vector.getElem_ofFn, Fin.val_castSucc, if_neg hi]

theorem get_ofBits_last (coefficients : Bits) (constant : ℚ) :
    (Row.ofBits coefficients constant : Row ℚ n).get (Fin.last n) = constant := by
  simp [Row.ofBits, Vector.get_eq_getElem]

theorem get_divide (row : Row ℚ n) (divisor : ℚ) :
    (row.divide divisor).get = divisor⁻¹ • row.get := by
  funext j
  rw [Pi.smul_apply, smul_eq_mul, inv_mul_eq_div]
  simp only [Row.divide, Vector.get_eq_getElem, Vector.getElem_map]

theorem get_subtract (row other : Row ℚ n) (factor : ℚ) :
    (row.subtract factor other).get = row.get - factor • other.get := by
  funext j
  rw [Pi.sub_apply, Pi.smul_apply, smul_eq_mul]
  simp only [Row.subtract, Vector.get_eq_getElem, Vector.getElem_zipWith]

end Row

/-! ## 3. The space that rows span -/

/-- The linear combinations of rows. -/
def rowSpace (rows : List (Row ℚ n)) : Submodule ℚ (Fin (n + 1) → ℚ) :=
  Submodule.span ℚ {v | ∃ row ∈ rows, row.get = v}

theorem get_mem_rowSpace {rows : List (Row ℚ n)} {row : Row ℚ n} (h : row ∈ rows) :
    row.get ∈ rowSpace rows :=
  Submodule.subset_span ⟨row, h, rfl⟩

theorem rowSpace_le {rows : List (Row ℚ n)} {S : Submodule ℚ (Fin (n + 1) → ℚ)}
    (h : ∀ row ∈ rows, row.get ∈ S) : rowSpace rows ≤ S := by
  apply Submodule.span_le.mpr
  rintro v ⟨row, hrow, rfl⟩
  exact h row hrow

theorem rowSpace_congr {rows rows' : List (Row ℚ n)} (h : ∀ row, row ∈ rows ↔ row ∈ rows') :
    rowSpace rows = rowSpace rows' := by
  apply le_antisymm
  · exact rowSpace_le fun row hrow => get_mem_rowSpace ((h row).mp hrow)
  · exact rowSpace_le fun row hrow => get_mem_rowSpace ((h row).mpr hrow)

theorem rowSpace_append (rows rows' : List (Row ℚ n)) :
    rowSpace (rows ++ rows') = rowSpace rows ⊔ rowSpace rows' := by
  rw [rowSpace, rowSpace, rowSpace, ← Submodule.span_union]
  congr 1
  ext v
  simp only [List.mem_append, Set.mem_ofPred_eq, Set.mem_union]
  constructor
  · rintro ⟨row, hrow | hrow, rfl⟩
    · exact .inl ⟨row, hrow, rfl⟩
    · exact .inr ⟨row, hrow, rfl⟩
  · rintro (⟨row, hrow, rfl⟩ | ⟨row, hrow, rfl⟩)
    · exact ⟨row, .inl hrow, rfl⟩
    · exact ⟨row, .inr hrow, rfl⟩

/-! ## 4. What rows say -/

/-- Probabilities of the cells, with minus one in the place of the constant. -/
def withConstant (x : Fin n → ℚ) : Fin (n + 1) → ℚ := Fin.snoc x (-1)

/-- The cells' probabilities satisfy the equation of a row. -/
def Row.Holds (row : Row ℚ n) (x : Fin n → ℚ) : Prop :=
  ∑ i, row.get i.castSucc * x i = row.get (Fin.last n)

/-- The cells' probabilities are a solution of all rows. -/
def AllHold (rows : List (Row ℚ n)) (x : Fin n → ℚ) : Prop := ∀ row ∈ rows, row.Holds x

theorem dotProduct_withConstant (v : Fin (n + 1) → ℚ) (x : Fin n → ℚ) :
    v ⬝ᵥ withConstant x = ∑ i, v i.castSucc * x i - v (Fin.last n) := by
  simp only [dotProduct, Fin.sum_univ_castSucc, withConstant, Fin.snoc_castSucc, Fin.snoc_last]
  ring

theorem Row.holds_iff (row : Row ℚ n) (x : Fin n → ℚ) :
    row.Holds x ↔ row.get ⬝ᵥ withConstant x = 0 := by
  rw [dotProduct_withConstant, sub_eq_zero, Row.Holds]

theorem withConstant_castSucc {y : Fin (n + 1) → ℚ} (h : y (Fin.last n) = -1) :
    withConstant (fun i => y i.castSucc) = y := by
  funext j
  refine Fin.lastCases ?_ (fun i => ?_) j
  · rw [withConstant, Fin.snoc_last, h]
  · rw [withConstant, Fin.snoc_castSucc]

theorem dotProduct_eq_zero_of_mem_rowSpace {rows : List (Row ℚ n)} {v y : Fin (n + 1) → ℚ}
    (h : ∀ row ∈ rows, row.get ⬝ᵥ y = 0) (hv : v ∈ rowSpace rows) : v ⬝ᵥ y = 0 := by
  induction hv using Submodule.span_induction with
  | mem v hv =>
    obtain ⟨row, hrow, rfl⟩ := hv
    exact h row hrow
  | zero => exact zero_dotProduct y
  | add v w _ _ hv hw => rw [add_dotProduct, hv, hw, add_zero]
  | smul c v _ hv => rw [smul_dotProduct, hv, smul_zero]

theorem AllHold.dotProduct_eq_zero {rows : List (Row ℚ n)} {x : Fin n → ℚ} (hx : AllHold rows x)
    {v : Fin (n + 1) → ℚ} (hv : v ∈ rowSpace rows) : v ⬝ᵥ withConstant x = 0 :=
  dotProduct_eq_zero_of_mem_rowSpace (fun row hrow => (row.holds_iff x).mp (hx row hrow)) hv

/-- Rows that span the same space have the same solutions. -/
theorem holds_of_rowSpace_eq {rows rows' : List (Row ℚ n)} (h : rowSpace rows = rowSpace rows')
    {x : Fin n → ℚ} (hx : AllHold rows x) : AllHold rows' x := by
  intro row hrow
  have hmem : row.get ∈ rowSpace rows := h ▸ get_mem_rowSpace hrow
  rw [Row.holds_iff]
  exact hx.dotProduct_eq_zero hmem

end Credence
