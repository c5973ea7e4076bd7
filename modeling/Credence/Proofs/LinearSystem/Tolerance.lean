import Mathlib
import Credence.Proofs.LinearSystem.Determined

/-!
# Answers at a tolerance

At a tolerance the sweep passes over a column whose entries are small, and a row that is settled
later may have entries before its pivot. Clearing goes through the columns once, in order: where such
a row is subtracted from the target, columns change that have been passed already and are not looked
at again. So an answer can be off by what was passed over, which is at most the tolerance, and by
what those entries add to it later. Where there are no entries before the pivots, it is not off by
more than the tolerance; elsewhere it may be.
-/

namespace Credence

variable {n : ℕ}

namespace Sweep

/-! ## 1. Entries before the pivots -/

/-- What subtracting a pivot row from the target can add to the entry of an earlier column. -/
def reach (s : Sweep ℚ n) (target : Row ℚ n) (i : Fin (n + 1)) (k : Fin s.settled.length) : ℚ :=
  if i < s.pivotAt k then |target.get (s.pivotAt k) * s.rowAt k i| else 0

/-- What the pivot rows of all columns but the given ones add up to. -/
def overhang (s : Sweep ℚ n) (target : Row ℚ n) (columns : List (Fin (n + 1)))
    (i : Fin (n + 1)) : ℚ :=
  ∑ k with s.pivotAt k ∉ columns, s.reach target i k

theorem reach_nonneg (s : Sweep ℚ n) (target : Row ℚ n) (i : Fin (n + 1))
    (k : Fin s.settled.length) : 0 ≤ s.reach target i k := by
  unfold reach
  split
  · exact abs_nonneg _
  · exact le_rfl

theorem overhang_nonneg (s : Sweep ℚ n) (target : Row ℚ n) (columns : List (Fin (n + 1)))
    (i : Fin (n + 1)) : 0 ≤ s.overhang target columns i :=
  Finset.sum_nonneg fun k _ => s.reach_nonneg target i k

theorem overhang_cons_le (s : Sweep ℚ n) (target : Row ℚ n) (j : Fin (n + 1))
    (columns : List (Fin (n + 1))) (i : Fin (n + 1)) :
    s.overhang target (j :: columns) i ≤ s.overhang target columns i := by
  apply Finset.sum_le_sum_of_subset_of_nonneg
  · intro k hk
    rw [Finset.mem_filter] at hk ⊢
    exact ⟨hk.1, fun hmem => hk.2 (List.mem_cons_of_mem j hmem)⟩
  · exact fun k _ _ => s.reach_nonneg target i k

theorem overhang_cons_add_le (s : Sweep ℚ n) (target : Row ℚ n) {columns : List (Fin (n + 1))}
    {k : Fin s.settled.length} (hk : s.pivotAt k ∉ columns) (i : Fin (n + 1)) :
    s.overhang target (s.pivotAt k :: columns) i + s.reach target i k ≤
      s.overhang target columns i := by
  have hnot : k ∉ Finset.univ.filter (s.pivotAt · ∉ s.pivotAt k :: columns) := by simp
  unfold overhang
  rw [add_comm, ← Finset.sum_insert hnot]
  apply Finset.sum_le_sum_of_subset_of_nonneg
  · intro l hl
    rw [Finset.mem_filter]
    refine ⟨Finset.mem_univ l, ?_⟩
    cases Finset.mem_insert.mp hl with
    | inl heq => rwa [heq]
    | inr hmem => exact fun hl' => (Finset.mem_filter.mp hmem).2 (List.mem_cons_of_mem _ hl')
  · exact fun l _ _ => s.reach_nonneg target i l

theorem zip_pivots_rows (s : Sweep ℚ n) : s.pivots.zip s.rows = s.settled := by
  have hlen : s.pivots.length = (s.settled.map (·.2)).length := by
    rw [pivots, List.length_map, List.length_map]
  -- the remaining rows have no pivot to be paired with
  rw [rows, ← List.append_nil s.pivots, List.zip_append hlen, List.zip_nil_left, List.append_nil,
    pivots, List.zip_map', List.map_id']

end Sweep

namespace LinearSystem

open Sweep

variable {s : LinearSystem ℚ n} {sweep : Sweep ℚ n} {t : ℚ}

/-- What the pivot rows of later columns can add to the entry of a column of the target. -/
def overhang (s : LinearSystem ℚ n) (target : Row ℚ n) (i : Fin (n + 1)) : ℚ :=
  (((s.pivots.getD []).zip s.rows).map fun (j, row) =>
    if i < j then |target.get j * row.get i| else 0).sum

theorem overhang_eq (hrows : s.rows = sweep.rows) (hpivots : s.pivots = some sweep.pivots)
    (target : Row ℚ n) (i : Fin (n + 1)) :
    s.overhang target i = sweep.overhang target [] i := by
  unfold overhang Sweep.overhang reach
  rw [hrows, hpivots, Option.getD_some, zip_pivots_rows]
  simp only [List.not_mem_nil, not_false_iff, Finset.filter_true]
  exact (Fin.sum_univ_fun_getElem sweep.settled fun p =>
    if i < p.1 then |target.get p.1 * p.2.get i| else 0).symm

/-! ## 2. The loop -/

/-- Clearing has come some way. What it has taken off the target is a combination of the rows. The
pivot columns to come have the target's entries, and the entries left behind are within the
tolerance but for what pivot rows have added to them since. -/
structure Passed (t : ℚ) (sweep : Sweep ℚ n) (target current : Row ℚ n)
    (columns : List (Fin (n + 1))) : Prop where
  space : target.get - current.get ∈ rowSpace sweep.rows
  ahead : ∀ k, sweep.pivotAt k ∈ columns →
    current.get (sweep.pivotAt k) = target.get (sweep.pivotAt k)
  behind : ∀ i ∉ columns, i ≠ Fin.last n →
    |current.get i| ≤ t + sweep.overhang target columns i

theorem passed_self (t : ℚ) (sweep : Sweep ℚ n) (target : Row ℚ n) :
    Passed t sweep target target ((List.finRange n).map Fin.castSucc) := by
  refine ⟨?_, fun _ _ => rfl, fun i hi hil => absurd (mem_castSucc_iff.mpr hil) hi⟩
  rw [sub_self]
  exact Submodule.zero_mem _

/-- A small entry is left as it is. -/
theorem Passed.skip {target current : Row ℚ n} {j : Fin (n + 1)} {columns : List (Fin (n + 1))}
    (h : Passed t sweep target current (j :: columns)) (hsmall : |current.get j| ≤ t) :
    Passed t sweep target current columns where
  space := h.space
  ahead := fun k hk => h.ahead k (List.mem_cons_of_mem j hk)
  behind := by
    intro i hi hil
    by_cases hij : i = j
    · have hpos := sweep.overhang_nonneg target columns j
      rw [hij]
      linarith
    · have hbehind := h.behind i (by simp [hij, hi]) hil
      have hle := sweep.overhang_cons_le target j columns i
      linarith

/-- Where a pivot row is subtracted, the entry of its column vanishes, those of other pivot columns
stay, and those left behind change by what the row reaches of them. -/
theorem Passed.subtract (ht : 0 ≤ t) (hsweep : UnitColumns [] sweep) {target current : Row ℚ n}
    {k : Fin sweep.settled.length} {columns : List (Fin (n + 1))}
    (h : Passed t sweep target current (sweep.pivotAt k :: columns))
    (hk : sweep.pivotAt k ∉ columns)
    (hbehind : ∀ i ∉ columns, i ≠ Fin.last n → i ≠ sweep.pivotAt k → i < sweep.pivotAt k) :
    Passed t sweep target
      (current.subtract (current.get (sweep.pivotAt k)) (sweep.settled.get k).2) columns := by
  have hget (i : Fin (n + 1)) :
      (current.subtract (current.get (sweep.pivotAt k)) (sweep.settled.get k).2).get i =
        current.get i - target.get (sweep.pivotAt k) * sweep.rowAt k i := by
    rw [Row.get_subtract, h.ahead k List.mem_cons_self]
    rfl
  refine ⟨sub_subtract_mem_rowSpace h.space _ k, ?_, ?_⟩
  · intro l hl
    have hkl : k ≠ l := fun heq => hk (heq ▸ hl)
    rw [hget, hsweep.rowAt_pivotAt, if_neg hkl, mul_zero, sub_zero]
    exact h.ahead l (List.mem_cons_of_mem _ hl)
  · intro i hi hil
    have hadd := sweep.overhang_cons_add_le target hk i
    rw [hget]
    by_cases hij : i = sweep.pivotAt k
    · have hpos := sweep.overhang_nonneg target columns i
      rw [hij, hsweep.rowAt_pivotAt, if_pos rfl, mul_one, h.ahead k List.mem_cons_self, sub_self,
        abs_zero, ← hij]
      linarith
    · have hleft := h.behind i (by simp [hij, hi]) hil
      have hsub := abs_sub (current.get i) (target.get (sweep.pivotAt k) * sweep.rowAt k i)
      rw [reach, if_pos (hbehind i hi hil hij)] at hadd
      linarith

theorem foldlM_clearColumn_passed (ht : 0 ≤ t) (hsweep : UnitColumns [] sweep)
    (htol : s.tolerance = t) (hrows : s.rows = sweep.rows) {target current cleared : Row ℚ n}
    {columns : List (Fin (n + 1))} (hsorted : columns.Pairwise (· < ·))
    (hbehind : ∀ i ∉ columns, i ≠ Fin.last n → ∀ j ∈ columns, i < j)
    (h : Passed t sweep target current columns)
    (hfold : columns.foldlM (s.clearColumn sweep.pivots) current = .ok cleared) :
    Passed t sweep target cleared [] := by
  induction columns generalizing current with
  | nil =>
    cases hfold
    exact h
  | cons j columns ih =>
    rw [List.pairwise_cons] at hsorted
    have hj : j ∉ columns := fun hmem => lt_irrefl j (hsorted.1 j hmem)
    have hbehind' := behind_tail hsorted.1 hbehind
    rw [List.foldlM_cons] at hfold
    -- an entry that is not small has a pivot row in its column, or there is no answer
    obtain ⟨hsmall, hstep⟩ | ⟨-, -, hstep⟩ | ⟨k, hk, hstep⟩ := clearColumn_cases hrows current j
    · rw [hstep] at hfold
      rw [htol] at hsmall
      exact ih hsorted.2 hbehind' (h.skip hsmall) hfold
    · rw [hstep] at hfold
      cases hfold
    · rw [hstep] at hfold
      subst hk
      refine ih hsorted.2 hbehind' (h.subtract ht hsweep hj ?_) hfold
      intro i hi hil hij
      exact hbehind i (by simp [hij, hi]) hil _ List.mem_cons_self

theorem exists_passed_of_clear_eq_ok (ht : 0 ≤ t) (hsweep : UnitColumns [] sweep)
    (htol : s.tolerance = t) (hrows : s.rows = sweep.rows) {target : Row ℚ n} {p : ℚ}
    (hp : s.clear sweep.pivots target = .ok p) :
    ∃ cleared : Row ℚ n, Passed t sweep target cleared [] ∧ p = -cleared.get (Fin.last n) := by
  unfold clear at hp
  split at hp
  next => cases hp
  next =>
    cases hfold : ((List.finRange n).map Fin.castSucc).foldlM (s.clearColumn sweep.pivots)
        target with
    | error e =>
      rw [hfold] at hp
      cases hp
    | ok cleared =>
      rw [hfold] at hp
      cases hp
      -- at the start no column lies behind
      have hpassed := foldlM_clearColumn_passed ht hsweep htol hrows pairwise_castSucc
        (fun i hi hil => absurd (mem_castSucc_iff.mpr hil) hi) (passed_self t sweep target) hfold
      exact ⟨cleared, hpassed, rfl⟩

/-! ## 3. The bound -/

/-- What is left of a target in the cells' columns bounds how far its value on a solution with
non-negative entries is from the answer. -/
theorem abs_dotProduct_add_le {target cleared : Row ℚ n} {ε : ℚ}
    (hspace : target.get - cleared.get ∈ rowSpace sweep.rows)
    (hleft : ∀ i : Fin n, |cleared.get i.castSucc| ≤ ε) {x : Fin n → ℚ}
    (hx : AllHold sweep.rows x) (hsum : ∑ i, x i = 1) (hnonneg : ∀ i, 0 ≤ x i) :
    |target.get ⬝ᵥ withConstant x + cleared.get (Fin.last n)| ≤ ε := by
  rw [dotProduct_eq_of_sub_mem_rowSpace hspace fun v hv => hx.dotProduct_eq_zero hv,
    Credence.dotProduct_withConstant, sub_add_cancel]
  calc |∑ i, cleared.get (Fin.castSucc i) * x i|
      ≤ ∑ i, |cleared.get (Fin.castSucc i) * x i| := Finset.abs_sum_le_sum_abs _ _
    _ ≤ ∑ i, ε * x i := by
        apply Finset.sum_le_sum
        intro i _
        rw [abs_mul, abs_of_nonneg (hnonneg i)]
        exact mul_le_mul_of_nonneg_right (hleft i) (hnonneg i)
    _ = ε := by rw [← Finset.mul_sum, hsum, mul_one]

/-- The system is worth as much as the equations, and if the pivots are known, they are the pivots of
a sweep that has left those rows. -/
structure Swept (t : ℚ) (equations : List (Bits × ℚ)) (s : LinearSystem ℚ n) : Prop
    extends Stands t equations s where
  pivots : ∀ pivots, s.pivots = some pivots → ∃ sweep : Sweep ℚ n, UnitColumns [] sweep ∧
    s.rows = sweep.rows ∧ pivots = sweep.pivots

theorem swept_new (ht : 0 ≤ t) : ∃ s : LinearSystem ℚ n, new t = .ok s ∧ Swept t [] s :=
  ⟨_, if_pos ht, ⟨rfl, rfl⟩, fun _ h => absurd h (by simp)⟩

theorem Swept.push {equations : List (Bits × ℚ)} (h : Swept t equations s) {coefficients : Bits}
    (hfit : coefficients.length = n) (constant : ℚ) :
    ∃ s', s.push coefficients constant = .ok s' ∧
      Swept t (equations ++ [(coefficients, constant)]) s' :=
  ⟨_, push_eq_ok hfit constant, h.toStands.push coefficients constant,
    fun _ h => absurd h (by simp)⟩

theorem Swept.reduce (ht : 0 ≤ t) {equations : List (Bits × ℚ)} (h : Swept t equations s) :
    Swept t equations s.reduce where
  toStands := h.toStands.reduce ht
  pivots := by
    intro pivots hpivots
    refine ⟨Sweep.run s.tolerance s.rows, unitColumns_run (by rwa [h.tolerance]) s.rows, rfl, ?_⟩
    exact (Option.some.inj hpivots).symm

theorem invariant_swept (ht : 0 ≤ t) : Invariant t (Swept t (n := n)) :=
  ⟨swept_new ht, Swept.push, Swept.reduce ht⟩

/-- Before it looks for an answer, a system knows the pivots of its rows. -/
theorem Swept.exists_sweep (ht : 0 ≤ t) {equations : List (Bits × ℚ)} (h : Swept t equations s) :
    ∃ sweep : Sweep ℚ n, UnitColumns [] sweep ∧ s.ensureReduced.rows = sweep.rows ∧
      s.ensureReduced.pivots = some sweep.pivots ∧ s.ensureReduced.tolerance = t ∧
      rowSpace sweep.rows = rowSpace (rowsOf n equations) := by
  have hreduced : Swept t equations s.ensureReduced := by
    unfold ensureReduced
    split
    · exact h
    · exact h.reduce ht
  have hknown : ∃ pivots, s.ensureReduced.pivots = some pivots := by
    unfold ensureReduced
    split
    next hsome => exact Option.isSome_iff_exists.mp hsome
    next => exact ⟨_, rfl⟩
  obtain ⟨pivots, hpivots⟩ := hknown
  obtain ⟨sweep, hunit, hrows, heq⟩ := hreduced.pivots pivots hpivots
  rw [heq] at hpivots
  refine ⟨sweep, hunit, hrows, hpivots, hreduced.tolerance, ?_⟩
  rw [← hrows, hreduced.space]

theorem Swept.abs_weight_sub_le (ht : 0 ≤ t) {equations : List (Bits × ℚ)}
    (h : Swept t equations s) {target : Bits} (htarget : target.length = n) {p ε : ℚ}
    (hp : (s.solveFor target).1 = .ok p)
    (hε : ∀ i : Fin n, (s.solveFor target).2.overhang (Row.ofBits target 0) i.castSucc ≤ ε)
    {x : Fin n → ℚ} (hx : Solves equations x) (hnonneg : ∀ i, 0 ≤ x i) :
    |target.weight x - p| ≤ t + ε := by
  obtain ⟨sweep, hunit, hrows, hpivots, htol, hspace⟩ := h.exists_sweep ht
  simp only [solveFor, if_pos htarget, hpivots, Option.getD_some] at hp hε
  obtain ⟨cleared, hpassed, rfl⟩ := exists_passed_of_clear_eq_ok ht hunit htol hrows hp
  have hleft (i : Fin n) : |cleared.get i.castSucc| ≤ t + ε := by
    have hbehind := hpassed.behind i.castSucc List.not_mem_nil (Fin.castSucc_lt_last i).ne
    have hover := hε i
    rw [overhang_eq hrows hpivots] at hover
    linarith
  have hall : AllHold sweep.rows x :=
    holds_of_rowSpace_eq hspace.symm ((solves_iff_holds equations x).mp hx)
  have hbound := abs_dotProduct_add_le hpassed.space hleft hall hx.1 hnonneg
  rw [Row.ofBits_dotProduct, sub_zero] at hbound
  rwa [sub_neg_eq_add]

/-- At any tolerance, whatever a system has been asked before: if it answers, the answer is off by
at most the tolerance and what the pivot rows can add to a column before their pivots. -/
theorem abs_weight_sub_le_of_solveFor_after (ht : 0 ≤ t) {equations : List (Bits × ℚ)}
    {calls : List (Call ℚ)} {target : Bits} (hfit : Fit n (equations ++ pushed calls))
    (htarget : target.length = n) :
    ∃ s : LinearSystem ℚ n, after t equations calls = .ok s ∧
      ∀ p, (s.solveFor target).1 = .ok p →
        ∀ x : Fin n → ℚ, Solves (equations ++ pushed calls) x → (∀ i, 0 ≤ x i) →
          ∀ ε, (∀ i : Fin n,
            (s.solveFor target).2.overhang (Row.ofBits target 0) i.castSucc ≤ ε) →
          |target.weight x - p| ≤ t + ε := by
  obtain ⟨s, hs, h⟩ := (invariant_swept ht).after hfit
  exact ⟨s, hs, fun p hp x hx hnonneg ε hε => h.abs_weight_sub_le ht htarget hp hε hx hnonneg⟩

theorem abs_weight_sub_le_of_solveFor_after_two_cells :
    ∃ s : LinearSystem ℚ 2, after (1 / 8) [(.ofBools [false, true], 1 / 4)] [.reduce] = .ok s ∧
      (s.solveFor (.ofBools [true, false])).1 = .ok (3 / 4) ∧
      |(Bits.ofBools [true, false]).weight ![(3 : ℚ) / 4, 1 / 4] - 3 / 4| ≤ 1 / 8 := by
  have hfit : Fit 2 ([(Bits.ofBools [false, true], (1 / 4 : ℚ))] ++ pushed [.reduce]) := by
    simp [Fit, pushed, Bits.ofBools]
  obtain ⟨s, hs, hoff⟩ := abs_weight_sub_le_of_solveFor_after (t := 1 / 8) (by norm_num) hfit
    (show (Bits.ofBools [true, false]).length = 2 from rfl)
  have hsweep : s = _ := Except.ok.inj (hs.symm.trans (by with_unfolding_all rfl))
  have hp : (s.solveFor (.ofBools [true, false])).1 = .ok (3 / 4) := by
    rw [hsweep]
    with_unfolding_all rfl
  have hover : ∀ i : Fin 2, (s.solveFor (.ofBools [true, false])).2.overhang
      (Row.ofBits (.ofBools [true, false]) 0) i.castSucc ≤ 0 := by
    rw [hsweep]
    decide +kernel
  have hx : Solves ([(Bits.ofBools [false, true], 1 / 4)] ++ pushed [.reduce])
      ![(3 : ℚ) / 4, 1 / 4] := by
    unfold Solves
    decide +kernel
  have hbound := hoff (3 / 4) hp _ hx (by decide +kernel) 0 hover
  rw [add_zero] at hbound
  exact ⟨s, hs, hp, hbound⟩

/-! ## 4. Entries that come back -/

/-- Equations for eight cells. At a tolerance of three eighths the sweep passes over the sixth
column, and settles the eighth with a row that has a one in the sixth. -/
def shadowed : List (Bits × ℚ) :=
  [(.ofBools [true, true, false, true, false, true, true, true], 1),
    (.ofBools [false, false, false, true, true, false, false, false], 0),
    (.ofBools [false, true, false, false, true, false, true, false], 0),
    (.ofBools [false, true, true, true, false, true, false, true], 1),
    (.ofBools [true, true, false, false, true, false, false, false], 0),
    (.ofBools [false, false, true, true, true, false, true, false], 0)]

def shadowedTarget : Bits := .ofBools [false, false, true, false, true, false, true, true]

/-- The answer is one, but the target has probability zero where the sixth cell is certain. -/
theorem shadowed_answer_beyond_tolerance :
    ∃ s : LinearSystem ℚ 8, after (3 / 8) shadowed [] = .ok s ∧
      (s.solveFor shadowedTarget).1 = .ok 1 ∧
      ∃ x : Fin 8 → ℚ, Solves shadowed x ∧ (∀ i, 0 ≤ x i) ∧
        3 / 8 < |shadowedTarget.weight x - 1| := by
  refine ⟨_, by with_unfolding_all rfl, by with_unfolding_all rfl, Pi.single 5 1, ?_⟩
  unfold Solves
  decide +kernel

end LinearSystem
end Credence
