import Mathlib
import Credence.Fill
import Credence.Proofs.Bits.Indices
import Credence.Proofs.Cell.Subsets

/-!
# Fill levels as counts

The fill of a cell is the number of selected cells that contain it, cut off at the maximum: each
selected cell raises every one of its subsets once, since the walk through them repeats none.
-/

namespace Credence

theorem mapM_eq_ok {α β ε : Type} {f : α → Except ε β} {g : α → β} {xs : List α}
    (h : ∀ x ∈ xs, f x = .ok (g x)) : xs.mapM f = .ok (xs.map g) := by
  induction xs with
  | nil => rfl
  | cons x xs ih =>
    rw [List.mapM_cons, h x (List.mem_cons_self ..),
      ih fun y hy => h y (List.mem_cons_of_mem _ hy)]
    rfl

namespace Fill

/-! ## 1. Maxima -/

theorem maximum_ofIndex {n i : ℕ} {cells : Array Cell} (h : Cell.enumerate n = .ok cells)
    (hi : i < 2 ^ n) : maximum n (Cell.ofIndex i) = .ok (2 ^ (n - (Cell.ofIndex i).size)) := by
  have hn : n ≤ 63 := Cell.le_maxEvents_of_enumerate h
  have hsize : (Cell.ofIndex i).size ≤ n := by
    apply Cell.size_le
    rw [Cell.index_ofIndex_of_enumerate h hi]
    exact hi
  rw [maximum, if_neg (by omega), if_pos (by omega), Nat.one_shiftLeft]

/-- The number of cells over `n` events that contain each cell. -/
def capacities (n : ℕ) : Array ℕ :=
  ((List.range (2 ^ n)).map fun i => 2 ^ (n - (Cell.ofIndex i).size)).toArray

theorem maxima_eq_capacities {n : ℕ} {cells : Array Cell} (h : Cell.enumerate n = .ok cells) :
    maxima cells n = .ok (capacities n) := by
  rw [maxima, ← (Cell.enumerate_eq_ok.mp h).2, Array.mapM_map, ← List.toArray_range,
    List.mapM_toArray,
    mapM_eq_ok (f := maximum n ∘ Cell.ofIndex) fun i hi => maximum_ofIndex h (List.mem_range.mp hi)]
  rfl

theorem size_capacities (n : ℕ) : (capacities n).size = 2 ^ n := by
  simp [capacities]

theorem getD_capacities {n i : ℕ} (hi : i < 2 ^ n) :
    (capacities n).getD i 0 = 2 ^ (n - (Cell.ofIndex i).size) := by
  simp [capacities, hi]

/-! ## 2. Raising one cell after the other -/

theorem size_raise (maxima levels : Array ℕ) (c : Cell) :
    (raise maxima levels c).size = levels.size := by
  rw [raise]
  split
  · exact Array.size_modify
  · rfl

theorem getD_raise {maxima levels : Array ℕ} (hsize : levels.size = maxima.size) {j : ℕ}
    (hle : levels.getD j 0 ≤ maxima.getD j 0) (c : Cell) :
    (raise maxima levels c).getD j 0 =
      min (levels.getD j 0 + if c.index = j then 1 else 0) (maxima.getD j 0) := by
  rw [raise]
  by_cases hj : c.index = j
  · subst hj
    rw [if_pos rfl]
    by_cases hlt : levels.getD c.index 0 < maxima.getD c.index 0
    · rw [if_pos hlt, Nat.min_eq_left hlt]
      -- outside of the levels the maximum would be zero as well
      have hin : c.index < levels.size := by
        by_contra hout
        rw [Array.getD_eq_getD_getElem?, Array.getD_eq_getD_getElem?,
          Array.getElem?_eq_none (by omega), Array.getElem?_eq_none (by omega)] at hlt
        exact Nat.lt_irrefl _ hlt
      simp [hin, Array.getElem_modify_self]
    · rw [if_neg hlt]
      omega
  · rw [if_neg hj, Nat.add_zero, Nat.min_eq_left hle]
    split
    · rw [Array.getD_eq_getD_getElem?, Array.getElem?_modify, if_neg hj,
        Array.getD_eq_getD_getElem?]
    · rfl

theorem size_foldl_raise (maxima levels : Array ℕ) (cs : List Cell) :
    (cs.foldl (raise maxima) levels).size = levels.size := by
  induction cs generalizing levels with
  | nil => rfl
  | cons c cs ih => rw [List.foldl_cons, ih, size_raise]

theorem getD_foldl_raise {maxima levels : Array ℕ} (hsize : levels.size = maxima.size) {j : ℕ}
    (hle : levels.getD j 0 ≤ maxima.getD j 0) (cs : List Cell) :
    (cs.foldl (raise maxima) levels).getD j 0 =
      min (levels.getD j 0 + cs.countP fun c => c.index = j) (maxima.getD j 0) := by
  -- cutting off after each step is the same as cutting off at the end
  induction cs generalizing levels with
  | nil => rw [List.foldl_nil, List.countP_nil, Nat.add_zero, Nat.min_eq_left hle]
  | cons c cs ih =>
    have hstep := getD_raise hsize hle c
    rw [List.foldl_cons, ih (by rw [size_raise, hsize]) (by omega), hstep, List.countP_cons]
    simp only [decide_eq_true_eq]
    omega

theorem countP_subsets {c : Cell} {j : ℕ} (hj : (Cell.ofIndex j).index = j) :
    (c.subsets.countP fun d => d.index = j) = if (Cell.ofIndex j).isSubsetOf c then 1 else 0 := by
  -- the cell with that index is the only one, and the walk visits it once or never
  have hindex (d : Cell) : decide (d.index = j) = (d == Cell.ofIndex j) := by
    rw [Bool.eq_iff_iff, decide_eq_true_iff, beq_iff_eq]
    constructor
    · intro h
      exact Cell.index_injective (h.trans hj.symm)
    · rintro rfl
      exact hj
  simp only [hindex]
  rw [← List.count_eq_countP, (Cell.nodup_subsets c).count]
  simp only [Cell.mem_subsets]

/-! ## 3. The levels under a coverage -/

section Pour

variable {n : ℕ} {cells : Array Cell} (h : Cell.enumerate n = .ok cells)

include h

theorem pour_spec {maxima levels : Array ℕ} (hmax : maxima.size = 2 ^ n)
    (hsize : levels.size = 2 ^ n) {i : ℕ} (hi : i < 2 ^ n) :
    ∃ levels', pour maxima cells levels i = .ok levels' ∧ levels'.size = 2 ^ n ∧
      ∀ j < 2 ^ n, levels.getD j 0 ≤ maxima.getD j 0 →
        levels'.getD j 0 = min (levels.getD j 0 +
          if (Cell.ofIndex j).isSubsetOf (Cell.ofIndex i) then 1 else 0) (maxima.getD j 0) := by
  have hindex := Cell.index_ofIndex_of_enumerate h hi
  refine ⟨(Cell.ofIndex i).subsets.foldl (raise maxima) levels, ?_, ?_, ?_⟩
  · rw [pour, Cell.getElem?_of_enumerate h hi]
    show (if (Cell.ofIndex i).index < levels.size then _ else _) = _
    rw [if_pos (by omega)]
  · rw [size_foldl_raise, hsize]
  · intro j hj hle
    rw [getD_foldl_raise (by omega) hle, countP_subsets (Cell.index_ofIndex_of_enumerate h hj)]

theorem foldlM_pour_spec {maxima levels : Array ℕ} (hmax : maxima.size = 2 ^ n)
    (hsize : levels.size = 2 ^ n) {selected : List ℕ} (hselected : ∀ i ∈ selected, i < 2 ^ n) :
    ∃ levels', selected.foldlM (pour maxima cells) levels = .ok levels' ∧
      levels'.size = 2 ^ n ∧
      ∀ j < 2 ^ n, levels.getD j 0 ≤ maxima.getD j 0 →
        levels'.getD j 0 = min (levels.getD j 0 + selected.countP fun i =>
          (Cell.ofIndex j).isSubsetOf (Cell.ofIndex i)) (maxima.getD j 0) := by
  induction selected generalizing levels with
  | nil =>
    refine ⟨levels, rfl, hsize, fun j _ hle => ?_⟩
    rw [List.countP_nil, Nat.add_zero, Nat.min_eq_left hle]
  | cons i selected ih =>
    obtain ⟨first, hfirst, hsize₁, hstep⟩ := pour_spec h hmax hsize (hselected i (List.mem_cons_self ..))
    obtain ⟨final, hfinal, hsize₂, hrest⟩ :=
      ih hsize₁ fun k hk => hselected k (List.mem_cons_of_mem _ hk)
    refine ⟨final, ?_, hsize₂, fun j hj hle => ?_⟩
    · rw [List.foldlM_cons, hfirst]
      exact hfinal
    · have hj₁ := hstep j hj hle
      rw [hrest j hj (by omega), hj₁, List.countP_cons]
      omega

end Pour

end Fill
end Credence
