import Mathlib
import Credence.LinearSystem.Solve
import Credence.Proofs.LinearSystem.Canonical

/-!
# Clearing a row

A row is cleared against rows in reduced echelon form. A column that is passed never changes again,
as the pivot rows of later columns are zero in it. So if the loop ends, the row and what is left of
it differ by a combination of the rows; and if it meets an entry in a column without pivot, there
is a direction in which all rows vanish and the row does not.
-/

namespace Credence

variable {n : ℕ}

namespace Sweep

/-! ## 1. Free columns -/

/-- A one in the given column, and in the pivot columns what makes all pivot rows vanish. -/
def freeVector (s : Sweep ℚ n) (j : Fin (n + 1)) : Fin (n + 1) → ℚ :=
  Pi.single j 1 - ∑ k, s.rowAt k j • Pi.single (s.pivotAt k) 1

theorem dotProduct_freeVector (s : Sweep ℚ n) (j : Fin (n + 1)) (v : Fin (n + 1) → ℚ) :
    v ⬝ᵥ s.freeVector j = v j - ∑ k, s.rowAt k j * v (s.pivotAt k) := by
  rw [freeVector, dotProduct_sub, dotProduct_single, mul_one, dotProduct_sum]
  simp only [dotProduct_smul, dotProduct_single, mul_one, smul_eq_mul]

theorem Echelon.dotProduct_freeVector_eq_zero {s : Sweep ℚ n} (h : Echelon [] s)
    {v : Fin (n + 1) → ℚ} (hv : v ∈ rowSpace s.rows) (j : Fin (n + 1)) :
    v ⬝ᵥ s.freeVector j = 0 := by
  have hj := congrFun (h.eq_sum_rowAt hv) j
  simp only [Finset.sum_apply, Pi.smul_apply, smul_eq_mul] at hj
  rw [dotProduct_freeVector, hj, sub_eq_zero]
  exact Finset.sum_congr rfl fun k _ => mul_comm _ _

theorem freeVector_of_notMem {s : Sweep ℚ n} {i : Fin (n + 1)} (hi : i ∉ s.pivots)
    (j : Fin (n + 1)) : s.freeVector j i = if i = j then 1 else 0 := by
  have hne (k : Fin s.settled.length) : i ≠ s.pivotAt k := by
    rintro rfl
    exact hi (mem_pivots_iff.mpr ⟨k, rfl⟩)
  simp only [freeVector, Pi.sub_apply, Finset.sum_apply, Pi.smul_apply, Pi.single_apply, hne,
    if_false, smul_zero, Finset.sum_const_zero, sub_zero]

/-- A pivot in the constant column is a row that nothing satisfies. -/
theorem Echelon.not_holds_of_last_mem {s : Sweep ℚ n} (h : Echelon [] s)
    (hlast : Fin.last n ∈ s.pivots) (x : Fin n → ℚ) : ¬ AllHold s.rows x := by
  intro hx
  obtain ⟨k, hk⟩ := mem_pivots_iff.mp hlast
  have hrow : ∑ i, s.rowAt k (Fin.castSucc i) * x i = s.rowAt k (Fin.last n) :=
    hx _ (List.mem_append_left _ (List.mem_map_of_mem (List.get_mem s.settled k)))
  -- such a row says that zero is one
  have hone : s.rowAt k (Fin.last n) = 1 := by
    rw [← hk, h.rowAt_pivotAt, if_pos rfl]
  have hzero (i : Fin n) : s.rowAt k i.castSucc = 0 := by
    apply h.rowAt_eq_zero
    rw [hk]
    exact Fin.castSucc_lt_last i
  simp [hone, hzero] at hrow

/-- Without a pivot in the constant column the rows have a solution. -/
theorem Echelon.exists_holds {s : Sweep ℚ n} (h : Echelon [] s) (hlast : Fin.last n ∉ s.pivots) :
    ∃ x : Fin n → ℚ, AllHold s.rows x := by
  have hy : (-s.freeVector (Fin.last n)) (Fin.last n) = -1 := by
    rw [Pi.neg_apply, freeVector_of_notMem hlast, if_pos rfl]
  -- the constants are free, and the vector of a free column is orthogonal to all rows
  refine ⟨fun i => (-s.freeVector (Fin.last n)) i.castSucc, fun row hrow => ?_⟩
  rw [Row.holds_iff, withConstant_castSucc hy, dotProduct_neg,
    h.dotProduct_freeVector_eq_zero (get_mem_rowSpace hrow), neg_zero]

/-! ## 2. One column -/

/-- The number of a pivot leads to its row. -/
theorem getElem?_rows_of_findIdx? {s : Sweep ℚ n} {j : Fin (n + 1)} {p : ℕ}
    (h : s.pivots.findIdx? (·.val = j.val) = some p) :
    ∃ k, s.pivotAt k = j ∧ s.rows[p]? = some (s.settled.get k).2 := by
  obtain ⟨hp, hj, -⟩ := List.findIdx?_eq_some_iff_getElem.mp h
  have hp' : p < s.settled.length := by rwa [pivots, List.length_map] at hp
  refine ⟨⟨p, hp'⟩, ?_, ?_⟩
  · apply Fin.ext
    simpa [pivots, pivotAt] using hj
  · have hlen : p < (s.settled.map (·.2)).length := by rwa [List.length_map]
    rw [rows, List.getElem?_append_left hlen, List.getElem?_map, List.getElem?_eq_getElem hp']
    rfl

theorem notMem_pivots_of_findIdx? {s : Sweep ℚ n} {j : Fin (n + 1)}
    (h : s.pivots.findIdx? (·.val = j.val) = none) : j ∉ s.pivots := by
  intro hj
  have := List.findIdx?_eq_none_iff.mp h j hj
  simp at this

end Sweep

namespace LinearSystem

open Sweep

variable {s : LinearSystem ℚ n} {sweep : Sweep ℚ n}

theorem clearColumn_cases (hrows : s.rows = sweep.rows) (target : Row ℚ n) (j : Fin (n + 1)) :
    (|target.get j| ≤ s.tolerance ∧ s.clearColumn sweep.pivots target j = .ok target) ∨
    (s.tolerance < |target.get j| ∧ j ∉ sweep.pivots ∧
      s.clearColumn sweep.pivots target j = .error (.refused (.noPivot j.val))) ∨
    ∃ k, sweep.pivotAt k = j ∧ s.clearColumn sweep.pivots target j =
      .ok (target.subtract (target.get j) (sweep.settled.get k).2) := by
  simp only [clearColumn, Scalar.abs_rat]
  split
  next h => exact .inl ⟨h, rfl⟩
  next h =>
    split
    next hfind => exact .inr (.inl ⟨not_le.mp h, notMem_pivots_of_findIdx? hfind, rfl⟩)
    next p hfind =>
      obtain ⟨k, hk, hrow⟩ := getElem?_rows_of_findIdx? hfind
      rw [hrows, hrow]
      exact .inr (.inr ⟨k, hk, rfl⟩)

/-- Without tolerance only zeros are passed over. -/
theorem clearColumn_cases_exact (htol : s.tolerance = 0) (hrows : s.rows = sweep.rows)
    (target : Row ℚ n) (j : Fin (n + 1)) :
    (target.get j = 0 ∧ s.clearColumn sweep.pivots target j = .ok target) ∨
    (target.get j ≠ 0 ∧ j ∉ sweep.pivots ∧
      s.clearColumn sweep.pivots target j = .error (.refused (.noPivot j.val))) ∨
    ∃ k, sweep.pivotAt k = j ∧ s.clearColumn sweep.pivots target j =
      .ok (target.subtract (target.get j) (sweep.settled.get k).2) := by
  have h := clearColumn_cases hrows target j
  rwa [htol, abs_nonpos_iff, abs_pos] at h

/-! ## 3. The loop -/

/-- Columns ascend, so those left behind stay behind. -/
theorem behind_tail {j : Fin (n + 1)} {columns : List (Fin (n + 1))}
    (hsorted : ∀ k ∈ columns, j < k)
    (h : ∀ i ∉ j :: columns, i ≠ Fin.last n → ∀ k ∈ j :: columns, i < k) :
    ∀ i ∉ columns, i ≠ Fin.last n → ∀ k ∈ columns, i < k := by
  intro i hi hil k hk
  by_cases hij : i = j
  · rw [hij]
    exact hsorted k hk
  · exact h i (by simp [hij, hi]) hil k (List.mem_cons_of_mem j hk)

/-- Clearing has come some way: what it has taken off the target is a combination of the rows, and
the coefficients in the columns that it has left behind are zero. -/
structure Cleared (sweep : Sweep ℚ n) (target current : Row ℚ n) (columns : List (Fin (n + 1))) :
    Prop where
  space : target.get - current.get ∈ rowSpace sweep.rows
  zero : ∀ i ∉ columns, i ≠ Fin.last n → current.get i = 0

theorem sub_subtract_mem_rowSpace {target current : Row ℚ n}
    (h : target.get - current.get ∈ rowSpace sweep.rows) (factor : ℚ)
    (k : Fin sweep.settled.length) :
    target.get - (current.subtract factor (sweep.settled.get k).2).get ∈ rowSpace sweep.rows := by
  rw [Row.get_subtract, sub_sub_eq_add_sub, add_sub_right_comm]
  exact Submodule.add_mem _ h (Submodule.smul_mem _ _ (sweep.rowAt_mem_rowSpace k))

theorem foldlM_clearColumn_cases (hsweep : Echelon [] sweep) (htol : s.tolerance = 0)
    (hrows : s.rows = sweep.rows) {target current : Row ℚ n} {columns : List (Fin (n + 1))}
    (hsorted : columns.Pairwise (· < ·)) (hlast : Fin.last n ∉ columns)
    (hbehind : ∀ i ∉ columns, i ≠ Fin.last n → ∀ j ∈ columns, i < j)
    (h : Cleared sweep target current columns) :
    (∃ cleared, columns.foldlM (s.clearColumn sweep.pivots) current = .ok cleared ∧
      Cleared sweep target cleared []) ∨
    ∃ j rest stuck, columns.foldlM (s.clearColumn sweep.pivots) current =
        .error (.refused (.noPivot j.val)) ∧
      j ≠ Fin.last n ∧ j ∉ sweep.pivots ∧ stuck.get j ≠ 0 ∧ (∀ i < j, i ∉ rest) ∧
      Cleared sweep target stuck rest := by
  induction columns generalizing current with
  | nil => exact .inl ⟨current, rfl, h⟩
  | cons j columns ih =>
    rw [List.pairwise_cons] at hsorted
    rw [List.mem_cons, not_or] at hlast
    have hbehind' := behind_tail hsorted.1 hbehind
    obtain ⟨hzero, hstep⟩ | ⟨hne, hnot, hstep⟩ | ⟨k, hk, hstep⟩ :=
      clearColumn_cases_exact htol hrows current j
    · rw [List.foldlM_cons, hstep]
      apply ih hsorted.2 hlast.2 hbehind'
      refine ⟨h.space, fun i hi hil => ?_⟩
      by_cases hij : i = j
      · rw [hij, hzero]
      · exact h.zero i (by simp [hij, hi]) hil
    · refine .inr ⟨j, j :: columns, current, ?_, Ne.symm hlast.1, hnot, hne, ?_, h⟩
      · rw [List.foldlM_cons, hstep]
        rfl
      · rintro i hij (_ | ⟨_, hmem⟩)
        · exact lt_irrefl _ hij
        · exact lt_asymm hij (hsorted.1 i hmem)
    · rw [List.foldlM_cons, hstep]
      apply ih hsorted.2 hlast.2 hbehind'
      refine ⟨sub_subtract_mem_rowSpace h.space _ k, fun i hi hil => ?_⟩
      rw [Row.get_subtract, Pi.sub_apply, Pi.smul_apply, smul_eq_mul]
      by_cases hij : i = j
      · -- the pivot row has a one here
        have hone : (sweep.settled.get k).2.get j = 1 := by
          rw [← hk]
          exact hsweep.one _ (List.get_mem sweep.settled k)
        rw [hij, hone, mul_one, sub_self]
      · -- the pivot row is zero in the columns left behind
        have hnot : i ∉ j :: columns := by simp [hij, hi]
        have hrow : (sweep.settled.get k).2.get i = 0 := by
          apply hsweep.rowAt_eq_zero
          rw [hk]
          exact hbehind i hnot hil j List.mem_cons_self
        rw [hrow, mul_zero, sub_zero]
        exact h.zero i hnot hil

/-! ## 4. The outcome -/

theorem getLast?_pivots_iff (hsweep : Echelon [] sweep) :
    sweep.pivots.getLast? = some (Fin.last n) ↔ Fin.last n ∈ sweep.pivots := by
  refine ⟨List.mem_of_getLast?, fun hmem => ?_⟩
  have hne : sweep.pivots ≠ [] := List.ne_nil_of_mem hmem
  have hsorted := hsweep.ascending
  rw [← List.dropLast_concat_getLast hne] at hmem hsorted
  rw [List.pairwise_append] at hsorted
  rw [List.mem_append, List.mem_singleton] at hmem
  rw [List.getLast?_eq_some_getLast hne]
  -- nothing comes after the last column
  rcases hmem with hinit | hlast
  · have hlt := hsorted.2.2 _ hinit _ (List.mem_singleton_self _)
    exact absurd hlt (not_lt.mpr (Fin.le_last _))
  · rw [hlast]

theorem dotProduct_eq_of_sub_mem_rowSpace {target current : Row ℚ n}
    (h : target.get - current.get ∈ rowSpace sweep.rows) {y : Fin (n + 1) → ℚ}
    (hy : ∀ v ∈ rowSpace sweep.rows, v ⬝ᵥ y = 0) : target.get ⬝ᵥ y = current.get ⬝ᵥ y := by
  have hzero := hy _ h
  rwa [sub_dotProduct, sub_eq_zero] at hzero

/-- Where clearing stops at an entry in a column without pivot, a solution can be moved so that all
rows still hold and the target changes. -/
theorem Cleared.exists_ne (hsweep : Echelon [] sweep) {target stuck : Row ℚ n}
    {j : Fin (n + 1)} {rest : List (Fin (n + 1))} (h : Cleared sweep target stuck rest)
    (hj : j ≠ Fin.last n) (hpivot : j ∉ sweep.pivots) (hstuck : stuck.get j ≠ 0)
    (hbefore : ∀ i < j, i ∉ rest) (hlast : Fin.last n ∉ sweep.pivots) {x : Fin n → ℚ}
    (hx : AllHold sweep.rows x) :
    ∃ x' : Fin n → ℚ, AllHold sweep.rows x' ∧
      target.get ⬝ᵥ withConstant x' ≠ target.get ⬝ᵥ withConstant x := by
  have hfree (v : Fin (n + 1) → ℚ) (hv : v ∈ rowSpace sweep.rows) :
      v ⬝ᵥ sweep.freeVector j = 0 := hsweep.dotProduct_freeVector_eq_zero hv j
  have hconstant : (withConstant x + sweep.freeVector j) (Fin.last n) = -1 := by
    rw [Pi.add_apply, freeVector_of_notMem hlast, if_neg hj.symm, add_zero]
    exact Fin.snoc_last _ _
  -- the pivot rows with an entry in column j have their pivots before it, where nothing is left
  have hdot : stuck.get ⬝ᵥ sweep.freeVector j = stuck.get j := by
    rw [dotProduct_freeVector, sub_eq_self]
    apply Finset.sum_eq_zero
    intro k _
    rcases lt_trichotomy (sweep.pivotAt k) j with hlt | heq | hgt
    · rw [h.zero _ (hbefore _ hlt) (ne_of_lt (lt_of_lt_of_le hlt (Fin.le_last j))), mul_zero]
    · exact absurd (mem_pivots_iff.mpr ⟨k, heq⟩) hpivot
    · rw [hsweep.rowAt_eq_zero hgt, zero_mul]
  refine ⟨fun i => (withConstant x + sweep.freeVector j) i.castSucc, ?_, ?_⟩
  · intro row hrow
    rw [Row.holds_iff, withConstant_castSucc hconstant, dotProduct_add,
      (row.holds_iff x).mp (hx row hrow), hfree _ (get_mem_rowSpace hrow), add_zero]
  · rw [withConstant_castSucc hconstant, dotProduct_add,
      dotProduct_eq_of_sub_mem_rowSpace h.space hfree, hdot]
    simpa using hstuck

/-- What is left of a row cleared in all columns is its value on every solution. -/
theorem Cleared.dotProduct_withConstant {target cleared : Row ℚ n}
    (h : Cleared sweep target cleared []) {x : Fin n → ℚ} (hx : AllHold sweep.rows x) :
    target.get ⬝ᵥ withConstant x = -cleared.get (Fin.last n) := by
  have hzero (i : Fin n) : cleared.get i.castSucc = 0 :=
    h.zero _ List.not_mem_nil (Fin.castSucc_lt_last i).ne
  rw [dotProduct_eq_of_sub_mem_rowSpace h.space fun v hv => hx.dotProduct_eq_zero hv,
    Credence.dotProduct_withConstant]
  simp [hzero]

theorem pairwise_castSucc : ((List.finRange n).map Fin.castSucc).Pairwise (· < ·) := by
  rw [List.pairwise_map]
  exact List.pairwise_lt_finRange n

theorem mem_castSucc_iff {i : Fin (n + 1)} :
    i ∈ (List.finRange n).map Fin.castSucc ↔ i ≠ Fin.last n := by
  rw [List.mem_map]
  constructor
  · rintro ⟨k, -, rfl⟩
    exact (Fin.castSucc_lt_last k).ne
  · intro hi
    exact ⟨i.castPred hi, List.mem_finRange _, Fin.castSucc_castPred i hi⟩

theorem cleared_self (target : Row ℚ n) :
    Cleared sweep target target ((List.finRange n).map Fin.castSucc) := by
  refine ⟨?_, fun i hi hil => absurd (mem_castSucc_iff.mpr hil) hi⟩
  rw [sub_self]
  exact Submodule.zero_mem _

theorem clear_cases (hsweep : Echelon [] sweep) (htol : s.tolerance = 0)
    (hrows : s.rows = sweep.rows) (target : Row ℚ n) :
    (s.clear sweep.pivots target = .error (.refused .inconsistent) ∧
      ¬ ∃ x : Fin n → ℚ, AllHold sweep.rows x) ∨
    (∃ x : Fin n → ℚ, AllHold sweep.rows x) ∧
      ((∃ p, s.clear sweep.pivots target = .ok p ∧
        ∀ x : Fin n → ℚ, AllHold sweep.rows x → target.get ⬝ᵥ withConstant x = p) ∨
      ∃ column, s.clear sweep.pivots target = .error (.refused (.noPivot column)) ∧
        ∃ x x' : Fin n → ℚ, AllHold sweep.rows x ∧ AllHold sweep.rows x' ∧
          target.get ⬝ᵥ withConstant x' ≠ target.get ⬝ᵥ withConstant x) := by
  have hiff := getLast?_pivots_iff hsweep
  by_cases hlast : Fin.last n ∈ sweep.pivots
  · refine .inl ⟨if_pos (hiff.mpr hlast), ?_⟩
    rintro ⟨x, hx⟩
    exact hsweep.not_holds_of_last_mem hlast x hx
  · obtain ⟨x₀, hx₀⟩ := hsweep.exists_holds hlast
    refine .inr ⟨⟨x₀, hx₀⟩, ?_⟩
    rw [clear, if_neg (mt hiff.mp hlast)]
    -- at the start no column lies behind
    obtain ⟨cleared, hfold, hcleared⟩ | ⟨j, rest, stuck, hfold, hj, hpivot, hne, hbefore, hstuck⟩ :=
      foldlM_clearColumn_cases hsweep htol hrows pairwise_castSucc (fun h => mem_castSucc_iff.mp h rfl)
        (fun i hi hil => absurd (mem_castSucc_iff.mpr hil) hi) (cleared_self target)
    · refine .inl ⟨-cleared.get (Fin.last n), ?_, fun x hx => hcleared.dotProduct_withConstant hx⟩
      rw [hfold]
      rfl
    · obtain ⟨x', hx', hdiff⟩ := hstuck.exists_ne hsweep hj hpivot hne hbefore hlast hx₀
      refine .inr ⟨j.val, ?_, x₀, x', hx₀, hx', hdiff⟩
      rw [hfold]
      rfl

end LinearSystem
end Credence
