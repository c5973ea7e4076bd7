import Mathlib
import Credence.Proofs.LinearSystem.Canonical

/-!
# Reduced rows as a matrix

The rows of a system make up a matrix whose last column holds the constants. A reduction keeps the
solutions of the rows, and the column of each pivot becomes a unit column with its one in the row of
the pivot, whatever the tolerance. Without tolerance the matrix is in reduced row echelon form: the
rows that have a pivot begin with it, and those below them are zero.
-/

namespace Credence

variable {n : ℕ}

def rowMatrix (rows : List (Row ℚ n)) : Matrix (Fin rows.length) (Fin (n + 1)) ℚ :=
  Matrix.of fun r => (rows.get r).get

namespace Sweep

variable {s : Sweep ℚ n}

/-! ## 1. The rows of a sweep -/

theorem getElem?_rows (s : Sweep ℚ n) (i : ℕ) :
    s.rows[i]? =
      if i < s.settled.length then s.settled[i]?.map (·.2)
      else s.remaining[i - s.settled.length]? := by
  rw [rows, List.getElem?_append, List.length_map, List.getElem?_map]

/-- A row of the matrix is the pivot row of its number, or it is one of the remaining rows. -/
theorem rowMatrix_cases (s : Sweep ℚ n) (r : Fin s.rows.length) :
    (∃ k : Fin s.settled.length, k.val = r.val ∧ s.pivots[r.val]? = some (s.pivotAt k) ∧
      rowMatrix s.rows r = s.rowAt k) ∨
    (s.pivots[r.val]? = none ∧ ∃ row ∈ s.remaining, rowMatrix s.rows r = row.get) := by
  have hget : s.rows[r.val]? = some (s.rows.get r) := List.getElem?_eq_getElem r.isLt
  rw [getElem?_rows] at hget
  split at hget
  next hr =>
    rw [List.getElem?_eq_getElem hr, Option.map_some, Option.some.injEq] at hget
    refine .inl ⟨⟨r.val, hr⟩, rfl, ?_, congrArg Vector.get hget.symm⟩
    rw [pivots, List.getElem?_map, List.getElem?_eq_getElem hr]
    rfl
  next hr =>
    refine .inr ⟨?_, s.rows.get r, List.mem_of_getElem? hget, rfl⟩
    rw [pivots, List.getElem?_map, List.getElem?_eq_none (Nat.le_of_not_lt hr), Option.map_none]

/-! ## 2. Pivot columns -/

theorem UnitColumns.col_eq_single (h : UnitColumns [] s) {r : Fin s.rows.length}
    {j : Fin (n + 1)} (hj : s.pivots[r.val]? = some j) :
    (rowMatrix s.rows).col j = Pi.single r 1 := by
  obtain ⟨k, hk, hpivot, -⟩ | ⟨hnone, -⟩ := s.rowMatrix_cases r
  · obtain rfl : s.pivotAt k = j := Option.some.inj (hpivot.symm.trans hj)
    funext i
    rw [Matrix.col_apply, Pi.single_apply]
    -- the one stands in the pivot's own row; other pivot rows have a zero there, like all the rest
    obtain ⟨l, hl, -, hrow⟩ | ⟨hnone, row, hmem, hrow⟩ := s.rowMatrix_cases i
    · rw [hrow, h.rowAt_pivotAt]
      have hiff : l = k ↔ i = r := by rw [Fin.ext_iff, Fin.ext_iff, hl, hk]
      simp only [hiff]
    · have hne : i ≠ r := by
        rintro rfl
        rw [hnone] at hj
        cases hj
      rw [hrow, if_neg hne]
      exact h.remaining _ (List.get_mem s.settled k) row hmem
  · rw [hnone] at hj
    cases hj

/-! ## 3. Echelon form -/

theorem Echelon.isLeadingEntry (h : Echelon [] s) {r : Fin s.rows.length} {j : Fin (n + 1)}
    (hj : s.pivots[r.val]? = some j) : (rowMatrix s.rows).IsLeadingEntry r j := by
  have hcol := congrFun (h.toUnitColumns.col_eq_single hj) r
  rw [Matrix.col_apply, Pi.single_eq_same] at hcol
  refine ⟨fun i hi => ?_, by rw [hcol]; exact one_ne_zero⟩
  obtain ⟨k, -, hpivot, hrow⟩ | ⟨hnone, -⟩ := s.rowMatrix_cases r
  · obtain rfl : s.pivotAt k = j := Option.some.inj (hpivot.symm.trans hj)
    rw [hrow]
    exact h.rowAt_eq_zero hi
  · rw [hnone] at hj
    cases hj

theorem Echelon.row_eq_zero (h : Echelon [] s) {r : Fin s.rows.length}
    (hr : s.pivots[r.val]? = none) : rowMatrix s.rows r = 0 := by
  obtain ⟨k, -, hpivot, -⟩ | ⟨-, row, hmem, hrow⟩ := s.rowMatrix_cases r
  · rw [hpivot] at hr
    cases hr
  · funext i
    rw [hrow]
    exact h.exhausted row hmem i List.not_mem_nil

/-- The first non-zero entry of a row is its pivot. -/
theorem Echelon.pivots_of_isLeadingEntry (h : Echelon [] s) {r : Fin s.rows.length}
    {c : Fin (n + 1)} (hc : (rowMatrix s.rows).IsLeadingEntry r c) :
    s.pivots[r.val]? = some c := by
  cases hr : s.pivots[r.val]? with
  | none => exact absurd (h.row_eq_zero hr) hc.row_ne_zero
  | some j => rw [(h.isLeadingEntry hr).unique hc]

theorem Echelon.isRowEchelon (h : Echelon [] s) : (rowMatrix s.rows).IsRowEchelon := by
  intro r₁ r₂ hlt j hbefore
  cases hr₂ : s.pivots[r₂.val]? with
  | none => rw [h.row_eq_zero hr₂, Pi.zero_apply]
  | some j₂ =>
    -- a row above a pivot row has a pivot too, and its pivot comes first
    obtain ⟨hlen₂, hj₂⟩ := List.getElem?_eq_some_iff.mp hr₂
    have hlen₁ : r₁.val < s.pivots.length := Nat.lt_trans hlt hlen₂
    have hlead := h.isLeadingEntry (List.getElem?_eq_getElem hlen₁)
    have hpivots : s.pivots[r₁.val] < j₂ := by
      rw [← hj₂]
      exact List.pairwise_iff_getElem.mp h.ascending _ _ hlen₁ hlen₂ hlt
    apply (h.isLeadingEntry hr₂).1
    apply lt_of_le_of_lt _ hpivots
    by_contra hle
    exact hlead.2 (hbefore _ (not_le.mp hle))

theorem Echelon.isReducedRowEchelon (h : Echelon [] s) :
    (rowMatrix s.rows).IsReducedRowEchelon where
  isRowEchelon := h.isRowEchelon
  eq_one r c hc := by
    have hcol := congrFun (h.toUnitColumns.col_eq_single (h.pivots_of_isLeadingEntry hc)) r
    rwa [Matrix.col_apply, Pi.single_eq_same] at hcol
  eq_zero r₁ r₂ c hlt hc := by
    have hcol := congrFun (h.toUnitColumns.col_eq_single (h.pivots_of_isLeadingEntry hc)) r₁
    rwa [Matrix.col_apply, Pi.single_eq_of_ne hlt.ne] at hcol

end Sweep

namespace LinearSystem

/-! ## 4. A reduced system -/

/-- A reduction keeps the solutions. In the column of the k-th pivot, row k has a one and all other
rows have zeros. Without tolerance the matrix is in reduced row echelon form, its constants
included: pivot rows are zero before their pivots, and rows without a pivot are zero. -/
theorem isReducedRowEchelon_reduce {s : LinearSystem ℚ n} (ht : 0 ≤ s.tolerance) :
    (∀ x, AllHold s.reduce.rows x ↔ AllHold s.rows x) ∧
    ∃ pivots, s.reduce.pivots = some pivots ∧ pivots.length ≤ s.reduce.rows.length ∧
      (∀ (r : Fin s.reduce.rows.length) (j : Fin (n + 1)), pivots[r.val]? = some j →
        (rowMatrix s.reduce.rows).col j = Pi.single r 1) ∧
      (s.tolerance = 0 → (rowMatrix s.reduce.rows).IsReducedRowEchelon ∧
        ∀ r : Fin s.reduce.rows.length,
          (∀ j, pivots[r.val]? = some j → ∀ i < j, rowMatrix s.reduce.rows r i = 0) ∧
          (pivots[r.val]? = none → rowMatrix s.reduce.rows r = 0)) := by
  have hspace : rowSpace s.reduce.rows = rowSpace s.rows := Sweep.rowSpace_run ht s.rows
  refine ⟨fun x => ⟨holds_of_rowSpace_eq hspace, holds_of_rowSpace_eq hspace.symm⟩,
    (Sweep.run s.tolerance s.rows).pivots, rfl, ?_, ?_, ?_⟩
  · simp [LinearSystem.reduce, Sweep.rows, Sweep.pivots]
  · intro r j hj
    exact (Sweep.unitColumns_run ht s.rows).col_eq_single hj
  · intro hzero
    have hechelon : Sweep.Echelon [] (Sweep.run s.tolerance s.rows) := by
      rw [hzero]
      exact Sweep.echelon_run s.rows
    exact ⟨hechelon.isReducedRowEchelon,
      fun r => ⟨fun j hj => (hechelon.isLeadingEntry hj).1, hechelon.row_eq_zero⟩⟩

/-- The equation of two cells, pushed twice. -/
def repeated : LinearSystem ℚ 4 where
  rows := [#v[1, 1, 1, 1, 1], #v[0, 0, 1, 1, 1 / 2], #v[0, 0, 1, 1, 1 / 2]]
  tolerance := 0
  pivots := none

/-- The columns 1 and 3 are passed over, and the last row becomes zero. -/
theorem isReducedRowEchelon_reduce_repeated :
    0 ≤ repeated.tolerance ∧ repeated.reduce.rows.length = 3 ∧
      repeated.reduce.pivots = some [0, 2] ∧
      (∀ x, AllHold repeated.reduce.rows x ↔ AllHold repeated.rows x) ∧
      (rowMatrix repeated.reduce.rows).IsReducedRowEchelon ∧
      (∀ r, r.val = 1 → (rowMatrix repeated.reduce.rows).col 2 = Pi.single r 1) ∧
      ∀ r, r.val = 2 → rowMatrix repeated.reduce.rows r = 0 := by
  have ht : 0 ≤ repeated.tolerance := le_rfl
  have hrun : repeated.reduce.pivots = some [0, 2] := by with_unfolding_all rfl
  obtain ⟨hsolutions, pivots, hpivots, -, hcolumns, hechelon⟩ := isReducedRowEchelon_reduce ht
  obtain ⟨hform, hrows⟩ := hechelon rfl
  obtain rfl : pivots = [0, 2] := Option.some.inj (hpivots.symm.trans hrun)
  refine ⟨ht, by with_unfolding_all rfl, hrun, hsolutions, hform, fun r hr => ?_, fun r hr => ?_⟩
  · exact hcolumns r 2 (by rw [hr]; rfl)
  -- there are two pivots, so row 2 has none
  · exact (hrows r).2 (by rw [hr]; rfl)

end LinearSystem
end Credence
