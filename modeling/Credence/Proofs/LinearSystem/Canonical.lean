import Credence.Proofs.LinearSystem.Echelon

/-!
# Reduced echelon form is canonical

A vector in the row space is the combination of the pivot rows whose multiples are the vector's own
entries in the pivot columns. So the pivot columns are those in which a vector of the space can have
its first non-zero entry, and a pivot row is the only vector of the space with a one in its own
column and zeros in the other pivot columns. What a sweep leaves depends on nothing but the number
of rows and the space they span.
-/

namespace Credence

namespace Sweep

variable {n : ℕ}

/-! ## 1. Pivot rows by number -/

def pivotAt (s : Sweep ℚ n) (k : Fin s.settled.length) : Fin (n + 1) := (s.settled.get k).1

def rowAt (s : Sweep ℚ n) (k : Fin s.settled.length) : Fin (n + 1) → ℚ := (s.settled.get k).2.get

theorem mem_pivots_iff {s : Sweep ℚ n} {j : Fin (n + 1)} :
    j ∈ s.pivots ↔ ∃ k, s.pivotAt k = j := by
  rw [pivots, List.mem_map]
  constructor
  · rintro ⟨p, hp, rfl⟩
    obtain ⟨k, rfl⟩ := List.get_of_mem hp
    exact ⟨k, rfl⟩
  · rintro ⟨k, rfl⟩
    exact ⟨s.settled.get k, List.get_mem _ k, rfl⟩

theorem rowAt_mem_rowSpace (s : Sweep ℚ n) (k : Fin s.settled.length) :
    s.rowAt k ∈ rowSpace s.rows := by
  apply get_mem_rowSpace
  apply List.mem_append_left
  exact List.mem_map_of_mem (List.get_mem s.settled k)

theorem UnitColumns.pivotAt_strictMono {columns : List (Fin (n + 1))} {s : Sweep ℚ n}
    (h : UnitColumns columns s) : StrictMono s.pivotAt := by
  intro k l hkl
  have hsorted := h.ascending
  rw [pivots, List.pairwise_map] at hsorted
  exact List.pairwise_iff_get.mp hsorted k l hkl

theorem UnitColumns.rowAt_pivotAt {columns : List (Fin (n + 1))} {s : Sweep ℚ n}
    (h : UnitColumns columns s) (k l : Fin s.settled.length) :
    s.rowAt k (s.pivotAt l) = if k = l then 1 else 0 := by
  have hk := List.get_mem s.settled k
  have hl := List.get_mem s.settled l
  by_cases hkl : k = l
  · rw [if_pos hkl, hkl]
    exact h.one _ hl
  · rw [if_neg hkl]
    apply h.zero _ hl _ hk
    exact h.pivotAt_strictMono.injective.ne hkl

theorem Echelon.rowAt_eq_zero {s : Sweep ℚ n} (h : Echelon [] s) {k : Fin s.settled.length}
    {i : Fin (n + 1)} (hi : i < s.pivotAt k) : s.rowAt k i = 0 :=
  h.leading _ (List.get_mem s.settled k) i hi

/-! ## 2. Coordinates -/

/-- The entries of a vector in the pivot columns are its coordinates. -/
theorem Echelon.eq_sum_rowAt {s : Sweep ℚ n} (h : Echelon [] s) {v : Fin (n + 1) → ℚ}
    (hv : v ∈ rowSpace s.rows) : v = ∑ k, v (s.pivotAt k) • s.rowAt k := by
  induction hv using Submodule.span_induction with
  | mem v hv =>
    obtain ⟨row, hrow, rfl⟩ := hv
    -- a pivot row has a one in its own pivot column and zeros in the others; other rows are zero
    rcases List.mem_append.mp hrow with hrow | hrow
    · obtain ⟨p, hp, rfl⟩ := List.mem_map.mp hrow
      obtain ⟨l, rfl⟩ := List.get_of_mem hp
      have hcoord (k : Fin s.settled.length) :
          (s.settled.get l).2.get (s.pivotAt k) = if l = k then 1 else 0 :=
        h.rowAt_pivotAt l k
      simp only [hcoord, ite_smul, one_smul, zero_smul, Finset.sum_ite_eq, Finset.mem_univ,
        if_true]
      rfl
    · have hzero : row.get = 0 := by
        funext i
        exact h.exhausted row hrow i List.not_mem_nil
      simp [hzero]
  | zero => simp
  | add v w _ _ hv hw =>
    simp only [Pi.add_apply, add_smul, Finset.sum_add_distrib]
    rw [← hv, ← hw]
  | smul c v _ hv =>
    simp only [Pi.smul_apply, smul_eq_mul, mul_smul, ← Finset.smul_sum]
    rw [← hv]

/-- A pivot column is one in which a vector of the row space has its first non-zero entry. -/
theorem Echelon.mem_pivots_iff_leading {s : Sweep ℚ n} (h : Echelon [] s) {j : Fin (n + 1)} :
    j ∈ s.pivots ↔ ∃ v ∈ rowSpace s.rows, v j ≠ 0 ∧ ∀ i < j, v i = 0 := by
  rw [mem_pivots_iff]
  constructor
  · rintro ⟨k, rfl⟩
    refine ⟨s.rowAt k, s.rowAt_mem_rowSpace k, ?_, fun i hi => h.rowAt_eq_zero hi⟩
    rw [h.rowAt_pivotAt, if_pos rfl]
    exact one_ne_zero
  · rintro ⟨v, hv, hj, hbefore⟩
    by_contra hnot
    apply hj
    rw [h.eq_sum_rowAt hv, Finset.sum_apply]
    apply Finset.sum_eq_zero
    intro k _
    -- before column j the vector is zero; the pivot rows after column j are zero in it
    rcases lt_trichotomy (s.pivotAt k) j with hlt | heq | hgt
    · rw [hbefore _ hlt, zero_smul, Pi.zero_apply]
    · exact absurd ⟨k, heq⟩ hnot
    · rw [Pi.smul_apply, h.rowAt_eq_zero hgt, smul_zero]

/-! ## 3. Uniqueness -/

theorem pivots_eq_of_rowSpace_eq {s s' : Sweep ℚ n} (h : Echelon [] s) (h' : Echelon [] s')
    (hspace : rowSpace s.rows = rowSpace s'.rows) : s.pivots = s'.pivots := by
  apply List.Pairwise.eq_of_mem_iff h.ascending h'.ascending
  intro j
  rw [h.mem_pivots_iff_leading, h'.mem_pivots_iff_leading, hspace]

theorem rowAt_eq_of_pivotAt_eq {s s' : Sweep ℚ n} (h : Echelon [] s) (h' : Echelon [] s')
    (hspace : rowSpace s.rows = rowSpace s'.rows) {k : Fin s.settled.length}
    {l : Fin s'.settled.length} (hkl : s.pivotAt k = s'.pivotAt l) :
    s.rowAt k = s'.rowAt l := by
  have hmem : s.rowAt k ∈ rowSpace s'.rows := hspace ▸ s.rowAt_mem_rowSpace k
  rw [h'.eq_sum_rowAt hmem, Finset.sum_eq_single l]
  · rw [← hkl, h.rowAt_pivotAt, if_pos rfl, one_smul]
  · intro m _ hml
    -- the pivot column of row m is one of the pivot columns of s, and not that of row k
    have hm : s'.pivotAt m ∈ s.pivots := by
      rw [pivots_eq_of_rowSpace_eq h h' hspace]
      exact mem_pivots_iff.mpr ⟨m, rfl⟩
    obtain ⟨m', hm'⟩ := mem_pivots_iff.mp hm
    have hne : k ≠ m' := by
      rintro rfl
      exact hml (h'.pivotAt_strictMono.injective (hm'.symm.trans hkl))
    rw [← hm', h.rowAt_pivotAt, if_neg hne, zero_smul]
  · exact fun hl => absurd (Finset.mem_univ l) hl

theorem settled_eq_of_rowSpace_eq {s s' : Sweep ℚ n} (h : Echelon [] s) (h' : Echelon [] s')
    (hspace : rowSpace s.rows = rowSpace s'.rows) : s.settled = s'.settled := by
  have hpivots := pivots_eq_of_rowSpace_eq h h' hspace
  have hlen : s.settled.length = s'.settled.length := by
    have := congrArg List.length hpivots
    rwa [pivots, pivots, List.length_map, List.length_map] at this
  -- equal pivot columns make equal rows, place by place
  apply List.ext_get hlen
  intro i hi hi'
  have hcolumn : s.pivotAt ⟨i, hi⟩ = s'.pivotAt ⟨i, hi'⟩ := by
    have := List.getElem_of_eq hpivots (i := i) (by rwa [pivots, List.length_map])
    simpa [pivots, pivotAt] using this
  have hrow := rowAt_eq_of_pivotAt_eq h h' hspace hcolumn
  exact Prod.ext hcolumn (Row.get_injective hrow)

theorem remaining_eq_replicate {s : Sweep ℚ n} (h : Echelon [] s) :
    s.remaining = List.replicate s.remaining.length (Vector.replicate (n + 1) 0) := by
  apply List.eq_replicate_of_mem
  intro row hrow
  apply Row.get_injective
  funext i
  rw [h.exhausted row hrow i List.not_mem_nil]
  simp [Vector.get_eq_getElem]

/-- Sweeps in reduced echelon form are equal when they have the same number of rows and span the
same space. -/
theorem eq_of_rowSpace_eq {s s' : Sweep ℚ n} (h : Echelon [] s) (h' : Echelon [] s')
    (hspace : rowSpace s.rows = rowSpace s'.rows) (hlen : s.rows.length = s'.rows.length) :
    s = s' := by
  have hsettled := settled_eq_of_rowSpace_eq h h' hspace
  have hremaining : s.remaining.length = s'.remaining.length := by
    simp only [rows, List.length_append, List.length_map, hsettled] at hlen
    omega
  have hrest : s.remaining = s'.remaining := by
    rw [remaining_eq_replicate h, remaining_eq_replicate h', hremaining]
  cases s
  cases s'
  simp only at hsettled hrest
  rw [hsettled, hrest]

theorem run_eq_of_rowSpace_eq {rows rows' : List (Row ℚ n)} (hspace : rowSpace rows = rowSpace rows')
    (hlen : rows.length = rows'.length) : run 0 rows = run 0 rows' := by
  apply eq_of_rowSpace_eq (echelon_run rows) (echelon_run rows')
  · rw [rowSpace_run le_rfl, rowSpace_run le_rfl, hspace]
  · rw [length_rows_run, length_rows_run, hlen]

end Sweep
end Credence
