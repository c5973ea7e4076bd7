import Credence.Proofs.LinearSystem.RowSpace
import Credence.Proofs.LinearSystem.Shape

/-!
# The sweep over exact numbers

At any tolerance a sweep keeps the space that the rows span, and its pivot columns are unit columns.
Without tolerance it moreover leaves the rows in reduced echelon form.
-/

namespace Credence

namespace Sweep

variable {n : ℕ} {t : ℚ}

/-! ## 1. One column -/

theorem findPivot_eq_none {j : Fin (n + 1)} {rows : List (Row ℚ n)}
    (h : findPivot t j rows = none) : ∀ row ∈ rows, |row.get j| ≤ t := by
  induction rows with
  | nil => simp
  | cons row rows ih =>
    rw [findPivot] at h
    split at h
    next => exact absurd h (by simp)
    next hrow =>
      rw [Option.map_eq_none_iff] at h
      intro row' hmem
      rcases List.mem_cons.mp hmem with rfl | hmem
      · rw [← Scalar.abs_rat]
        exact not_lt.mp hrow
      · exact ih h row' hmem

/-- What the sweep of one column of exact numbers does. -/
theorem step_cases_exact (ht : 0 ≤ t) (s : Sweep ℚ n) (j : Fin (n + 1)) :
    ((∀ row ∈ s.remaining, |row.get j| ≤ t) ∧ step t s j = s) ∨
    ∃ row rest, s.remaining.Perm (row :: rest) ∧ row.get j ≠ 0 ∧
      step t s j = s.settle j (row.divide (row.get j)) rest := by
  obtain ⟨hnone, h⟩ | ⟨row, rest, hperm, hlt, h⟩ := step_cases t s j
  · exact .inl ⟨findPivot_eq_none hnone, h⟩
  · rw [Scalar.abs_rat] at hlt
    exact .inr ⟨row, rest, hperm, abs_pos.mp (lt_of_le_of_lt ht hlt), h⟩

theorem get_eliminate (pivot row : Row ℚ n) (j : Fin (n + 1)) :
    (eliminate pivot j row).get = row.get - (row.get j / pivot.get j) • pivot.get :=
  Row.get_subtract row pivot _

theorem get_divide_self {row : Row ℚ n} {j : Fin (n + 1)} (h : row.get j ≠ 0) :
    (row.divide (row.get j)).get j = 1 := by
  rw [Row.get_divide, Pi.smul_apply, smul_eq_mul, inv_mul_cancel₀ h]

theorem get_eliminate_self {pivot : Row ℚ n} {j : Fin (n + 1)} (h : pivot.get j = 1)
    (row : Row ℚ n) : (eliminate pivot j row).get j = 0 := by
  rw [get_eliminate, Pi.sub_apply, Pi.smul_apply, smul_eq_mul, h, div_one, mul_one, sub_self]

theorem get_eliminate_of_eq_zero {pivot : Row ℚ n} {j i : Fin (n + 1)} (h : pivot.get i = 0)
    (row : Row ℚ n) : (eliminate pivot j row).get i = row.get i := by
  rw [get_eliminate, Pi.sub_apply, Pi.smul_apply, smul_eq_mul, h, mul_zero, sub_zero]

/-! ## 2. The row space is kept -/

theorem rowSpace_settle {s : Sweep ℚ n} {j : Fin (n + 1)} {row : Row ℚ n}
    {rest : List (Row ℚ n)} (hperm : s.remaining.Perm (row :: rest)) (hrow : row.get j ≠ 0) :
    rowSpace (s.settle j (row.divide (row.get j)) rest).rows = rowSpace s.rows := by
  set pivot := row.divide (row.get j) with hpivot
  have hmem (r : Row ℚ n) (hr : r = row ∨ r ∈ rest) : r ∈ s.rows := by
    apply List.mem_append_right
    rw [hperm.mem_iff, List.mem_cons]
    exact hr
  have hnew : pivot ∈ (s.settle j pivot rest).rows := by
    simp [rows, settle]
  -- old and new rows differ by multiples of the pivot row, which lies in both spaces
  apply le_antisymm
  · have hp : pivot.get ∈ rowSpace s.rows := by
      rw [hpivot, Row.get_divide]
      exact Submodule.smul_mem _ _ (get_mem_rowSpace (hmem row (.inl rfl)))
    have helim (r : Row ℚ n) (hr : r ∈ s.rows) :
        (eliminate pivot j r).get ∈ rowSpace s.rows := by
      rw [get_eliminate]
      exact Submodule.sub_mem _ (get_mem_rowSpace hr) (Submodule.smul_mem _ _ hp)
    apply rowSpace_le
    intro r hr
    simp only [rows, settle, List.map_append, List.map_map, List.map_cons, List.map_nil,
      List.mem_append, List.mem_map, List.mem_singleton, Function.comp_apply] at hr
    rcases hr with (⟨p, hp', rfl⟩ | rfl) | ⟨r', hr', rfl⟩
    · exact helim p.2 (List.mem_append_left _ (List.mem_map_of_mem hp'))
    · exact hp
    · exact helim r' (hmem r' (.inr hr'))
  -- adding back what was subtracted gives the old rows
  · have hback (r : Row ℚ n) (hr : eliminate pivot j r ∈ (s.settle j pivot rest).rows) :
        r.get ∈ rowSpace (s.settle j pivot rest).rows := by
      have h := get_mem_rowSpace hr
      rw [get_eliminate] at h
      have hsum := Submodule.add_mem _ h
        (Submodule.smul_mem _ (r.get j / pivot.get j) (get_mem_rowSpace hnew))
      rwa [sub_add_cancel] at hsum
    apply rowSpace_le
    intro r hr
    rcases List.mem_append.mp hr with hr | hr
    · obtain ⟨p, hp, rfl⟩ := List.mem_map.mp hr
      apply hback
      simp only [rows, settle, List.map_append, List.map_map, List.mem_append, List.mem_map]
      exact .inl (.inl ⟨p, hp, rfl⟩)
    · rcases List.mem_cons.mp (hperm.mem_iff.mp hr) with rfl | hr
      · have h := Submodule.smul_mem _ (r.get j) (get_mem_rowSpace hnew)
        rwa [hpivot, Row.get_divide, smul_smul, mul_inv_cancel₀ hrow, one_smul] at h
      · apply hback
        simp only [rows, settle, List.mem_append, List.mem_map]
        exact .inr ⟨r, hr, rfl⟩

theorem rowSpace_step (ht : 0 ≤ t) (s : Sweep ℚ n) (j : Fin (n + 1)) :
    rowSpace (step t s j).rows = rowSpace s.rows := by
  obtain ⟨-, h⟩ | ⟨row, rest, hperm, hrow, h⟩ := step_cases_exact ht s j
  · rw [h]
  · rw [h, rowSpace_settle hperm hrow]

theorem rowSpace_foldl_step (ht : 0 ≤ t) (columns : List (Fin (n + 1))) (s : Sweep ℚ n) :
    rowSpace (columns.foldl (step t) s).rows = rowSpace s.rows := by
  induction columns generalizing s with
  | nil => rfl
  | cons j columns ih => rw [List.foldl_cons, ih, rowSpace_step ht]

/-- Sweeping all columns keeps the space that the rows span. -/
theorem rowSpace_run (ht : 0 ≤ t) (rows : List (Row ℚ n)) :
    rowSpace (run t rows).rows = rowSpace rows :=
  rowSpace_foldl_step ht _ _

/-! ## 3. Unit columns -/

/-- The sweep has still to visit the given columns. The pivot columns ascend, they are not among
those, and each has a one in its own row and zeros in all others. -/
structure UnitColumns (columns : List (Fin (n + 1))) (s : Sweep ℚ n) : Prop where
  ascending : s.pivots.Pairwise (· < ·)
  passed : ∀ p ∈ s.settled, ∀ j ∈ columns, p.1 < j
  one : ∀ p ∈ s.settled, p.2.get p.1 = 1
  zero : ∀ p ∈ s.settled, ∀ q ∈ s.settled, q.1 ≠ p.1 → q.2.get p.1 = 0
  remaining : ∀ p ∈ s.settled, ∀ row ∈ s.remaining, row.get p.1 = 0

theorem unitColumns_ofRows (columns : List (Fin (n + 1))) (rows : List (Row ℚ n)) :
    UnitColumns columns (ofRows rows) := by
  constructor <;> simp [ofRows, pivots]

theorem UnitColumns.tail {j : Fin (n + 1)} {columns : List (Fin (n + 1))} {s : Sweep ℚ n}
    (h : UnitColumns (j :: columns) s) : UnitColumns columns s :=
  { h with passed := fun p hp i hi => h.passed p hp i (List.mem_cons_of_mem j hi) }

theorem mem_settled_settle {s : Sweep ℚ n} {j : Fin (n + 1)} {pivot : Row ℚ n}
    {rest : List (Row ℚ n)} {p : Fin (n + 1) × Row ℚ n} :
    p ∈ (s.settle j pivot rest).settled ↔
      (∃ q ∈ s.settled, (q.1, eliminate pivot j q.2) = p) ∨ p = (j, pivot) := by
  simp [settle]

theorem UnitColumns.settle {j : Fin (n + 1)} {columns : List (Fin (n + 1))} {s : Sweep ℚ n}
    {pivot : Row ℚ n} {rest : List (Row ℚ n)} (h : UnitColumns (j :: columns) s)
    (hcolumns : ∀ i ∈ columns, j < i) (hone : pivot.get j = 1)
    (hzero : ∀ p ∈ s.settled, pivot.get p.1 = 0) (hrest : ∀ row ∈ rest, row ∈ s.remaining) :
    UnitColumns columns (s.settle j pivot rest) where
  ascending := by
    rw [pivots, Sweep.settle, List.map_append, List.map_map]
    refine List.pairwise_append.mpr ⟨h.ascending, by simp, ?_⟩
    intro i hi k hk
    obtain ⟨p, hp, rfl⟩ := List.mem_map.mp hi
    obtain rfl : k = j := by simpa using hk
    exact h.passed p hp k List.mem_cons_self
  passed := by
    intro p hp i hi
    rcases mem_settled_settle.mp hp with ⟨q, hq, rfl⟩ | rfl
    · exact h.passed q hq i (List.mem_cons_of_mem j hi)
    · exact hcolumns i hi
  one := by
    intro p hp
    rcases mem_settled_settle.mp hp with ⟨q, hq, rfl⟩ | rfl
    · rw [get_eliminate_of_eq_zero (hzero q hq), h.one q hq]
    · exact hone
  zero := by
    intro p hp q hq hne
    rcases mem_settled_settle.mp hp with ⟨p', hp', rfl⟩ | rfl <;>
      rcases mem_settled_settle.mp hq with ⟨q', hq', rfl⟩ | rfl
    · rw [get_eliminate_of_eq_zero (hzero p' hp')]
      exact h.zero p' hp' q' hq' hne
    · exact hzero p' hp'
    · exact get_eliminate_self hone q'.2
    · exact absurd rfl hne
  remaining := by
    intro p hp row hrow
    obtain ⟨row', hrow', rfl⟩ := List.mem_map.mp hrow
    rcases mem_settled_settle.mp hp with ⟨q, hq, rfl⟩ | rfl
    · rw [get_eliminate_of_eq_zero (hzero q hq)]
      exact h.remaining q hq row' (hrest row' hrow')
    · exact get_eliminate_self hone row'

/-- The row that is settled next, divided by its entry, has zeros in the pivot columns. -/
theorem UnitColumns.divide_eq_zero {columns : List (Fin (n + 1))} {s : Sweep ℚ n}
    (h : UnitColumns columns s) {row : Row ℚ n} (hrow : row ∈ s.remaining) (divisor : ℚ) :
    ∀ p ∈ s.settled, (row.divide divisor).get p.1 = 0 := by
  intro p hp
  rw [Row.get_divide, Pi.smul_apply, h.remaining p hp row hrow, smul_zero]

theorem UnitColumns.step {j : Fin (n + 1)} {columns : List (Fin (n + 1))} {s : Sweep ℚ n}
    (ht : 0 ≤ t) (h : UnitColumns (j :: columns) s) (hcolumns : ∀ i ∈ columns, j < i) :
    UnitColumns columns (step t s j) := by
  obtain ⟨-, hstep⟩ | ⟨row, rest, hperm, hrow, hstep⟩ := step_cases_exact ht s j
  · rw [hstep]
    exact h.tail
  · rw [hstep]
    have hmem (r : Row ℚ n) (hr : r ∈ row :: rest) : r ∈ s.remaining := hperm.mem_iff.mpr hr
    apply h.settle hcolumns (get_divide_self hrow)
    · exact h.divide_eq_zero (hmem row List.mem_cons_self) _
    · exact fun r hr => hmem r (List.mem_cons_of_mem row hr)

theorem UnitColumns.foldl_step (ht : 0 ≤ t) {columns : List (Fin (n + 1))} {s : Sweep ℚ n}
    (hsorted : columns.Pairwise (· < ·)) (h : UnitColumns columns s) :
    UnitColumns [] (columns.foldl (Sweep.step t) s) := by
  induction columns generalizing s with
  | nil => exact h
  | cons j columns ih =>
    rw [List.pairwise_cons] at hsorted
    exact ih hsorted.2 (h.step ht hsorted.1)

/-- At any tolerance the pivot columns of a full sweep are unit columns. -/
theorem unitColumns_run (ht : 0 ≤ t) (rows : List (Row ℚ n)) : UnitColumns [] (run t rows) :=
  (unitColumns_ofRows _ rows).foldl_step ht (List.pairwise_lt_finRange (n + 1))

/-! ## 4. Echelon form -/

/-- Without tolerance there are moreover zeros before each pivot, and the remaining rows are zero in
all columns visited. -/
structure Echelon (columns : List (Fin (n + 1))) (s : Sweep ℚ n) : Prop
    extends UnitColumns columns s where
  leading : ∀ p ∈ s.settled, ∀ i < p.1, p.2.get i = 0
  exhausted : ∀ row ∈ s.remaining, ∀ i ∉ columns, row.get i = 0

theorem Echelon.step {j : Fin (n + 1)} {columns : List (Fin (n + 1))} {s : Sweep ℚ n}
    (h : Echelon (j :: columns) s) (hcolumns : ∀ i ∈ columns, j < i) :
    Echelon columns (step 0 s j) := by
  have hunit := h.toUnitColumns.step le_rfl hcolumns
  obtain ⟨hzero, hstep⟩ | ⟨row, rest, hperm, hrow, hstep⟩ := step_cases_exact le_rfl s j
  · rw [hstep] at hunit ⊢
    -- without a pivot nothing changes, and the column is zero in the remaining rows
    refine ⟨hunit, h.leading, ?_⟩
    intro row hrow i hi
    by_cases hij : i = j
    · exact abs_nonpos_iff.mp (hij ▸ hzero row hrow)
    · exact h.exhausted row hrow i (by simp [hij, hi])
  · rw [hstep] at hunit ⊢
    have hmem (r : Row ℚ n) (hr : r ∈ row :: rest) : r ∈ s.remaining := hperm.mem_iff.mpr hr
    -- the new pivot row is zero in all columns visited before, so they stay as they are
    have hpivot (i : Fin (n + 1)) (hi : i ∉ j :: columns) :
        (row.divide (row.get j)).get i = 0 := by
      rw [Row.get_divide, Pi.smul_apply, h.exhausted row (hmem row List.mem_cons_self) i hi,
        smul_zero]
    have hvisited (i : Fin (n + 1)) (hi : i < j) : i ∉ j :: columns := by
      rintro (_ | ⟨_, hmem⟩)
      · exact lt_irrefl _ hi
      · exact lt_asymm hi (hcolumns i hmem)
    refine ⟨hunit, ?_, ?_⟩
    · intro p hp i hi
      rcases mem_settled_settle.mp hp with ⟨q, hq, rfl⟩ | rfl
      · have hij : i < j := lt_trans hi (h.passed q hq j List.mem_cons_self)
        rw [get_eliminate_of_eq_zero (hpivot i (hvisited i hij)), h.leading q hq i hi]
      · exact hpivot i (hvisited i hi)
    · intro r hr i hi
      obtain ⟨r', hr', rfl⟩ := List.mem_map.mp hr
      by_cases hij : i = j
      · rw [hij]
        exact get_eliminate_self (get_divide_self hrow) r'
      · have hnot : i ∉ j :: columns := by simp [hij, hi]
        rw [get_eliminate_of_eq_zero (hpivot i hnot)]
        exact h.exhausted r' (hmem r' (List.mem_cons_of_mem row hr')) i hnot

theorem Echelon.foldl_step {columns : List (Fin (n + 1))} {s : Sweep ℚ n}
    (hsorted : columns.Pairwise (· < ·)) (h : Echelon columns s) :
    Echelon [] (columns.foldl (Sweep.step 0) s) := by
  induction columns generalizing s with
  | nil => exact h
  | cons j columns ih =>
    rw [List.pairwise_cons] at hsorted
    exact ih hsorted.2 (h.step hsorted.1)

/-- Without tolerance a full sweep leaves the rows in reduced echelon form. -/
theorem echelon_run (rows : List (Row ℚ n)) : Echelon [] (run 0 rows) := by
  apply Echelon.foldl_step (List.pairwise_lt_finRange (n + 1))
  exact ⟨unitColumns_ofRows _ rows, by simp [ofRows], by simp [List.mem_finRange]⟩

end Sweep
end Credence
