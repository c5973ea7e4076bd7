import Mathlib
import Credence.Proofs.Fill.Counts
import Credence.Proofs.Fill.Interior

/-!
# Saturation

A cell is saturated when all the cells that contain it are selected. The saturated cells make up the
interior of the coverage, whatever the coverage, and on an upward closed one they are the selected
cells themselves. So taking saturated cells once more changes nothing, a larger coverage has no fewer
of them, and those of an intersection are the common ones.
-/

namespace Credence.Fill

section Enumerated

variable {n : ℕ} {cells : Array Cell} (h : Cell.enumerate n = .ok cells)
  {coverage : Bits} (hwell : coverage.WellFormed) (hlen : coverage.length = 2 ^ n)

include h

theorem card_selectedAbove_eq_iff {j : ℕ} (hj : j < 2 ^ n) :
    (selectedAbove n coverage j).card = (capacities n).getD j 0 ↔
      ∀ i ∈ (Cell.ofIndex j).containing n, coverage.contains i = true := by
  rw [getD_capacities_eq_card h hj, selectedAbove, Finset.card_filter_eq_iff]

include hwell hlen

theorem saturationRow_spec :
    ∃ row, saturationRow (capacities n) cells coverage = .ok row ∧ row.WellFormed ∧
      row.length = 2 ^ n ∧ ∀ j < 2 ^ n, (row.contains j = true ↔
        ∀ i ∈ (Cell.ofIndex j).containing n, coverage.contains i = true) := by
  obtain ⟨filled, hfill, hsize, hlevel⟩ := levels_capacities_spec h hwell hlen
  have hcap := size_capacities n
  refine ⟨Bits.ofBools (List.zipWith (· == ·) filled.toList (capacities n).toList), ?_,
    Bits.wellFormed_ofBools _, ?_, fun j hj => ?_⟩
  · rw [saturationRow, hfill]
    show saturated filled (capacities n) = _
    rw [saturated, if_neg (by omega)]
  · rw [Bits.ofBools, List.length_zipWith, Array.length_toList, Array.length_toList, hsize, hcap,
      Nat.min_self]
  · have hfilled : filled.toList[j]? = some (filled.getD j 0) := by
      simp [show j < filled.size by omega]
    have hcapacity : (capacities n).toList[j]? = some ((capacities n).getD j 0) := by
      simp [show j < (capacities n).size by omega]
    rw [Bits.contains_ofBools, List.getD_eq_getElem?_getD, List.getElem?_zipWith, hfilled,
      hcapacity, hlevel j hj, ← card_selectedAbove_eq_iff h hj]
    show (_ == _) = true ↔ _
    rw [beq_iff_eq]

/-- The saturated cells are the interior of the coverage. -/
theorem saturationRow_interior :
    ∃ row, saturationRow (capacities n) cells coverage = .ok row ∧ coverage.Interior row := by
  obtain ⟨row, hrow, hrowWell, hrowLen, hcontains⟩ := saturationRow_spec h hwell hlen
  refine ⟨row, hrow, hrowWell, hrowLen.trans hlen.symm, ?_, ?_, ?_⟩
  · intro j hj
    have hlt : j < 2 ^ n := hrowLen ▸ Bits.lt_length_of_contains hj
    exact (hcontains j hlt).mp hj j (Cell.mem_containing.mpr ⟨hlt, Cell.isSubsetOf_refl _⟩)
  · intro i j hj hsub hi
    have hlt : i < 2 ^ n := hrowLen ▸ Bits.lt_length_of_contains hi
    rw [hrowLen] at hj
    rw [hcontains j hj]
    -- what contains the larger cell contains the smaller one
    intro k hk
    obtain ⟨hklt, hjk⟩ := Cell.mem_containing.mp hk
    exact (hcontains i hlt).mp hi k
      (Cell.mem_containing.mpr ⟨hklt, Cell.isSubsetOf_trans hsub hjk⟩)
  · intro up hup hclosed hsub j hj
    have hlt : j < 2 ^ n := hup.trans hlen ▸ Bits.lt_length_of_contains hj
    rw [hcontains j hlt]
    intro i hi
    obtain ⟨hilt, hji⟩ := Cell.mem_containing.mp hi
    exact hsub i (hclosed j i (by rw [hup, hlen]; exact hilt) hji hj)

theorem saturationRow_of_upwardClosed (hup : coverage.UpwardClosed) :
    saturationRow (capacities n) cells coverage = .ok coverage := by
  obtain ⟨row, hrow, hinterior⟩ := saturationRow_interior h hwell hlen
  rw [hrow, hinterior.unique (hup.interior hwell)]

end Enumerated

/-- Over as many events as there is room for, whatever is selected: the saturated cells are the
largest upward closed part of the coverage. They are their own saturated cells, they become no fewer
when more cells are selected, and those of an intersection are the intersection of those. -/
theorem saturationRow_eq_interior {n : ℕ} (hn : n ≤ Cell.maxListed) {coverage other : Bits}
    (hwell : coverage.WellFormed) (hlen : coverage.length = 2 ^ n) (hwell' : other.WellFormed)
    (hlen' : other.length = 2 ^ n) :
    ∃ cells full row row', Cell.enumerate n = .ok cells ∧ maxima cells n = .ok full ∧
      saturationRow full cells coverage = .ok row ∧ saturationRow full cells other = .ok row' ∧
      coverage.Interior row ∧ saturationRow full cells row = .ok row ∧
      (coverage ⊆ other → row ⊆ row') ∧
      ∃ both common, coverage.inter other = .ok both ∧ row.inter row' = .ok common ∧
        saturationRow full cells both = .ok common := by
  obtain ⟨cells, h⟩ : ∃ cells, Cell.enumerate n = .ok cells := ⟨_, Cell.enumerate_of_le hn⟩
  have hlengths : coverage.length = other.length := hlen.trans hlen'.symm
  obtain ⟨row, hrow, hint⟩ := saturationRow_interior h hwell hlen
  obtain ⟨row', hrow', hint'⟩ := saturationRow_interior h hwell' hlen'
  obtain ⟨both, common, hboth, hbothWell, hbothLen, hcommon, hintBoth⟩ :=
    hint.inter hwell hwell' hlengths hint'
  obtain ⟨rowBoth, hrowBoth, hintBoth'⟩ :=
    saturationRow_interior h hbothWell (hbothLen.trans hlen)
  refine ⟨cells, capacities n, row, row', h, maxima_eq_capacities h, hrow, hrow', hint, ?_,
    hint.mono hint' hlengths, both, common, hboth, hcommon, ?_⟩
  · exact saturationRow_of_upwardClosed h hint.wellFormed (hint.length_eq.trans hlen)
      hint.upwardClosed
  · rw [hrowBoth, hintBoth'.unique hintBoth]

/-- The empty cell is selected in both coverages, but not all cells that contain it. -/
theorem saturationRow_eq_interior_two_events :
    ∃ cells full, Cell.enumerate 2 = .ok cells ∧ maxima cells 2 = .ok full ∧
      saturationRow full cells (.ofBools [true, false, false, true]) =
        .ok (.ofBools [false, false, false, true]) ∧
      saturationRow full cells (.ofBools [true, true, false, true]) =
        .ok (.ofBools [false, true, false, true]) ∧
      Bits.Interior (.ofBools [true, false, false, true]) (.ofBools [false, false, false, true]) ∧
      Bits.ofBools [false, false, false, true] ⊆ .ofBools [false, true, false, true] ∧
      ∃ both common,
        (Bits.ofBools [true, false, false, true]).inter (.ofBools [true, true, false, true]) =
          .ok both ∧
        (Bits.ofBools [false, false, false, true]).inter (.ofBools [false, true, false, true]) =
          .ok common ∧
        saturationRow full cells both = .ok common := by
  obtain ⟨cells, full, row, row', hcells, hfull, hrow, hrow', hint, -, hmono, both, common,
      hinter⟩ :=
    saturationRow_eq_interior (n := 2) (by decide)
      (Bits.wellFormed_ofBools [true, false, false, true]) rfl
      (Bits.wellFormed_ofBools [true, true, false, true]) rfl
  have hsub : Bits.ofBools [true, false, false, true] ⊆ .ofBools [true, true, false, true] := by
    intro i hi
    rw [Bits.contains_ofBools] at hi ⊢
    match i with
    | 0 | 1 | 3 => rfl
    | 2 => cases hi
    | _ + 4 => cases hi
  obtain rfl : (Array.range 4).map Cell.ofIndex = cells := Except.ok.inj hcells
  obtain rfl : #[4, 2, 2, 1] = full :=
    Except.ok.inj ((show _ = maxima _ 2 by decide +kernel).trans hfull)
  obtain rfl : Bits.ofBools [false, false, false, true] = row :=
    Except.ok.inj ((show _ = saturationRow _ _ _ by decide +kernel).trans hrow)
  obtain rfl : Bits.ofBools [false, true, false, true] = row' :=
    Except.ok.inj ((show _ = saturationRow _ _ _ by decide +kernel).trans hrow')
  exact ⟨_, _, hcells, hfull, hrow, hrow', hint, hmono hsub, both, common, hinter⟩

end Credence.Fill
