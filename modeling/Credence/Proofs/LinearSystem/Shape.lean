import Credence.LinearSystem.Reduce

/-!
# The rows of a sweep

Whatever the arithmetic yields, a sweep only takes rows apart, moves and combines them: it neither
gains nor loses one. Its pivots are columns that it has come by, in that order.
-/

namespace Credence

namespace Sweep

variable {α : Type} {n : Nat}

theorem closeGap_perm (before after : List (Row α n)) :
    (closeGap before after).Perm (before ++ after) := by
  cases before with
  | nil => exact .refl _
  | cons first before =>
    rw [closeGap, List.cons_append]
    exact List.perm_middle

variable [Scalar α] {t : α}

theorem findPivot_eq_append {j : Fin (n + 1)} {rows before after : List (Row α n)}
    {row : Row α n} (h : findPivot t j rows = some (before, row, after)) :
    rows = before ++ row :: after ∧ t < Scalar.abs (row.get j) := by
  induction rows generalizing before with
  | nil => exact absurd h (by simp [findPivot])
  | cons row' rows ih =>
    rw [findPivot] at h
    split at h
    next hrow =>
      simp only [Option.some.injEq, Prod.mk.injEq] at h
      obtain ⟨rfl, rfl, rfl⟩ := h
      exact ⟨rfl, hrow⟩
    next =>
      simp only [Option.map_eq_some_iff, Prod.exists, Prod.mk.injEq] at h
      obtain ⟨before', row'', after', h, rfl, rfl, rfl⟩ := h
      obtain ⟨hrows, hlt⟩ := ih h
      rw [hrows]
      exact ⟨rfl, hlt⟩

/-- The sweep with one more pivot row. The entry of a row in the pivot's column tells how often the
pivot row is subtracted from it. -/
def settle (s : Sweep α n) (j : Fin (n + 1)) (pivot : Row α n) (rest : List (Row α n)) :
    Sweep α n :=
  ⟨s.settled.map (fun p => (p.1, eliminate pivot j p.2)) ++ [(j, pivot)],
    rest.map (eliminate pivot j)⟩

/-- What the sweep of one column does. -/
theorem step_cases (t : α) (s : Sweep α n) (j : Fin (n + 1)) :
    (findPivot t j s.remaining = none ∧ step t s j = s) ∨
    ∃ row rest, s.remaining.Perm (row :: rest) ∧ t < Scalar.abs (row.get j) ∧
      step t s j = s.settle j (row.divide (row.get j)) rest := by
  rcases hfind : findPivot t j s.remaining with _ | ⟨before, row, after⟩
  · refine .inl ⟨rfl, ?_⟩
    rw [step, hfind]
  · obtain ⟨hrows, hlt⟩ := findPivot_eq_append hfind
    refine .inr ⟨row, closeGap before after, ?_, hlt, ?_⟩
    · rw [hrows]
      exact List.perm_middle.trans ((closeGap_perm before after).symm.cons row)
    · rw [step, hfind]
      rfl

theorem length_rows_step (t : α) (s : Sweep α n) (j : Fin (n + 1)) :
    (step t s j).rows.length = s.rows.length := by
  obtain ⟨-, h⟩ | ⟨row, rest, hperm, -, h⟩ := step_cases t s j
  · rw [h]
  · have hlen := hperm.length_eq
    rw [List.length_cons] at hlen
    simp only [h, rows, settle, List.length_append, List.length_map, List.length_cons,
      List.length_nil]
    omega

theorem length_rows_run (t : α) (rows : List (Row α n)) :
    (run t rows).rows.length = rows.length := by
  -- for any start, as the sweep changes with each column
  suffices h : ∀ (columns : List (Fin (n + 1))) (s : Sweep α n),
      (columns.foldl (step t) s).rows.length = s.rows.length from h _ _
  intro columns
  induction columns with
  | nil => exact fun s => rfl
  | cons j columns ih =>
    intro s
    rw [List.foldl_cons, ih, length_rows_step]

theorem pivots_step_cases (t : α) (s : Sweep α n) (j : Fin (n + 1)) :
    (step t s j).pivots = s.pivots ∨ (step t s j).pivots = s.pivots ++ [j] := by
  obtain ⟨-, h⟩ | ⟨row, rest, -, -, h⟩ := step_cases t s j
  · left
    rw [h]
  · right
    simp [h, pivots, settle]

theorem pivots_foldl_step_sublist (t : α) (s : Sweep α n) (columns : List (Fin (n + 1))) :
    (columns.foldl (step t) s).pivots.Sublist (s.pivots ++ columns) := by
  induction columns generalizing s with
  | nil => simp
  | cons j columns ih =>
    rw [List.foldl_cons]
    -- a column that is passed over is missing from the pivots
    cases pivots_step_cases t s j with
    | inl hsame =>
      have htail := ih (step t s j)
      rw [hsame] at htail
      exact htail.trans ((List.sublist_cons_self j columns).append_left s.pivots)
    | inr hmore =>
      have htail := ih (step t s j)
      rwa [hmore, List.append_assoc] at htail

theorem pairwise_pivots_run (t : α) (rows : List (Row α n)) :
    (run t rows).pivots.Pairwise (· < ·) := by
  have hsublist : (run t rows).pivots.Sublist (List.finRange (n + 1)) :=
    pivots_foldl_step_sublist t (ofRows rows) (List.finRange (n + 1))
  exact (List.pairwise_lt_finRange (n + 1)).sublist hsublist

end Sweep
end Credence
