import Mathlib
import Credence.Proofs.Fill.Levels

/-!
# Fill levels without comparing cells

The levels are counted up by walking through the subsets of the selected cells. What comes out is
what comparing all pairs of cells would give: for each cell the number of selected cells that contain
it, or its given maximum if that is less. No more cells contain a cell than its maximum fill says, so
at maximum fill the numbers are never cut off.
-/

namespace Credence.Fill

/-- The selected cells among those over `n` events that contain cell number `j`. -/
def selectedAbove (n : ℕ) (coverage : Bits) (j : ℕ) : Finset ℕ :=
  ((Cell.ofIndex j).containing n).filter fun i => coverage.contains i = true

theorem countP_indices {n : ℕ} {coverage : Bits} (hwell : coverage.WellFormed)
    (hlen : coverage.length = 2 ^ n) (j : ℕ) :
    (coverage.indices.countP fun i => (Cell.ofIndex j).isSubsetOf (Cell.ofIndex i)) =
      (selectedAbove n coverage j).card := by
  have hnodup : coverage.indices.Nodup := coverage.pairwise_indices.imp fun h => Nat.ne_of_lt h
  rw [List.countP_eq_length_filter, ← List.toFinset_card_of_nodup (hnodup.filter _)]
  congr 1
  ext i
  rw [List.mem_toFinset, List.mem_filter, hwell.mem_indices, selectedAbove, Finset.mem_filter,
    Cell.mem_containing]
  constructor
  · rintro ⟨hi, hsub⟩
    rw [← hlen]
    exact ⟨⟨Bits.lt_length_of_contains hi, hsub⟩, hi⟩
  · rintro ⟨⟨-, hsub⟩, hi⟩
    exact ⟨hi, hsub⟩

section Enumerated

variable {n : ℕ} {cells : Array Cell} (h : Cell.enumerate n = .ok cells) {coverage : Bits}

include h

/-- The maximum fill of a cell is the number of cells that contain it. -/
theorem getD_capacities_eq_card {j : ℕ} (hj : j < 2 ^ n) :
    (capacities n).getD j 0 = ((Cell.ofIndex j).containing n).card := by
  have hindex := Cell.index_ofIndex_of_enumerate h hj
  rw [getD_capacities hj, Cell.card_containing (Cell.le_maxEvents_of_enumerate h) (by rwa [hindex])]

theorem card_selectedAbove_le {j : ℕ} (hj : j < 2 ^ n) :
    (selectedAbove n coverage j).card ≤ (capacities n).getD j 0 := by
  rw [getD_capacities_eq_card h hj]
  exact Finset.card_filter_le _ _

theorem levels_spec (hwell : coverage.WellFormed) (hlen : coverage.length = 2 ^ n)
    {maxima : Array ℕ} (hmax : maxima.size = 2 ^ n) :
    ∃ filled, levels maxima cells coverage = .ok filled ∧ filled.size = 2 ^ n ∧
      ∀ j < 2 ^ n, filled.getD j 0 = min (maxima.getD j 0) (selectedAbove n coverage j).card := by
  have hcells := Cell.size_of_enumerate h
  have hselected (i : ℕ) (hi : i ∈ coverage.indices) : i < 2 ^ n := by
    rw [← hlen]
    exact Bits.lt_length_of_contains (hwell.mem_indices.mp hi)
  obtain ⟨filled, hfill, hsize, hlevel⟩ := foldlM_pour_spec h hmax
    (show (Array.replicate cells.size 0).size = 2 ^ n by rw [Array.size_replicate, hcells]) hselected
  refine ⟨filled, ?_, hsize, fun j hj => ?_⟩
  · rw [levels, if_neg (by rw [hmax, hcells]; simp), if_neg (by rw [hlen, hcells]; simp), hfill]
  · have hzero : (Array.replicate cells.size 0).getD j 0 = 0 := by simp [hcells, hj]
    rw [hlevel j hj (by rw [hzero]; exact Nat.zero_le _), hzero, Nat.zero_add,
      countP_indices hwell hlen, Nat.min_comm]

/-- At maximum fill nothing is cut off. -/
theorem levels_capacities_spec (hwell : coverage.WellFormed) (hlen : coverage.length = 2 ^ n) :
    ∃ filled, levels (capacities n) cells coverage = .ok filled ∧ filled.size = 2 ^ n ∧
      ∀ j < 2 ^ n, filled.getD j 0 = (selectedAbove n coverage j).card := by
  obtain ⟨filled, hfill, hsize, hlevel⟩ := levels_spec h hwell hlen (size_capacities n)
  refine ⟨filled, hfill, hsize, fun j hj => ?_⟩
  rw [hlevel j hj, Nat.min_eq_right (card_selectedAbove_le h hj)]

end Enumerated

/-- Over as many events as there is room for, whatever the maxima: the level of a cell is its maximum
or the number of selected cells that contain it, whichever is less. At maximum fill it is that
number, which does not exceed the maximum. -/
theorem levels_eq_min_card {n : ℕ} (hn : n ≤ Cell.maxListed) {maxima : Array ℕ}
    (hmax : maxima.size = 2 ^ n) {coverage : Bits} (hwell : coverage.WellFormed)
    (hlen : coverage.length = 2 ^ n) :
    ∃ cells, Cell.enumerate n = .ok cells ∧
      (∃ filled, levels maxima cells coverage = .ok filled ∧ filled.size = 2 ^ n ∧
        ∀ j < 2 ^ n,
          filled.getD j 0 = min (maxima.getD j 0) (selectedAbove n coverage j).card) ∧
      ∃ full filled, Fill.maxima cells n = .ok full ∧
        levels full cells coverage = .ok filled ∧ filled.size = 2 ^ n ∧
        ∀ j < 2 ^ n, (selectedAbove n coverage j).card ≤ full.getD j 0 ∧
          filled.getD j 0 = (selectedAbove n coverage j).card := by
  obtain ⟨cells, h⟩ : ∃ cells, Cell.enumerate n = .ok cells := ⟨_, Cell.enumerate_of_le hn⟩
  obtain ⟨filled, hfill, hsize, hlevel⟩ := levels_capacities_spec h hwell hlen
  exact ⟨cells, h, levels_spec h hwell hlen hmax, capacities n, filled, maxima_eq_capacities h,
    hfill, hsize, fun j hj => ⟨card_selectedAbove_le h hj, hlevel j hj⟩⟩

/-- Maxima that are no maximum fills: one cuts the empty cell off at 1, another one is never met. -/
theorem levels_eq_min_card_two_events :
    ∃ cells filled, Cell.enumerate 2 = .ok cells ∧
      levels #[1, 2, 0, 5] cells (.ofBools [false, true, false, true]) = .ok filled ∧
      filled.size = 4 ∧ filled.getD 0 0 = 1 ∧ filled.getD 1 0 = 2 ∧ filled.getD 3 0 = 1 := by
  obtain ⟨cells, hcells, ⟨filled, hfill, hsize, hlevel⟩, -⟩ :=
    levels_eq_min_card (n := 2) (by decide) (show #[1, 2, 0, 5].size = 4 from rfl)
      (Bits.wellFormed_ofBools [false, true, false, true]) rfl
  refine ⟨cells, filled, hcells, hfill, hsize, ?_, ?_, ?_⟩
  · exact (hlevel 0 (by decide)).trans (by decide +kernel)
  · exact (hlevel 1 (by decide)).trans (by decide +kernel)
  · exact (hlevel 3 (by decide)).trans (by decide +kernel)

end Credence.Fill
