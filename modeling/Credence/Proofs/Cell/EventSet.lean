import Mathlib
import Credence.Cell
import Credence.Proofs.Word

/-!
# Cells as sets

The events of a cell are the positions of the ones in its index. Through them inclusion of cells is
inclusion of sets, their size is the number of elements, and the cells over `n` events are the
subsets of the first `n` numbers, so that a cell with `k` events lies in `2 ^ (n - k)` of them.
-/

namespace Credence.Cell

/-! ## 1. The events of a cell -/

def eventSet (c : Cell) : Finset ℕ := Finset.equivBitIndices c.index

theorem mem_equivBitIndices {i k : ℕ} : k ∈ Finset.equivBitIndices i ↔ i.testBit k = true := by
  rw [Finset.equivBitIndices_apply, List.mem_toFinset, Nat.mem_bitIndices]

theorem equivBitIndices_subset_range {i n : ℕ} :
    Finset.equivBitIndices i ⊆ Finset.range n ↔ i < 2 ^ n := by
  constructor
  · intro h
    apply Nat.lt_pow_two_of_testBit
    intro k hk
    -- a bit beyond the range would be an element outside of it
    by_contra hbit
    have hmem := h (mem_equivBitIndices.mpr (Bool.eq_true_of_not_eq_false hbit))
    rw [Finset.mem_range] at hmem
    omega
  · intro h k hk
    rw [mem_equivBitIndices] at hk
    rw [Finset.mem_range]
    by_contra hle
    rw [Nat.testBit_lt_two_pow (h.trans_le (Nat.pow_le_pow_right (by omega) (by omega)))] at hk
    exact absurd hk (by decide)

theorem mem_eventSet {c : Cell} {k : ℕ} : k ∈ c.eventSet ↔ c.contains k = true :=
  mem_equivBitIndices

theorem index_injective : Function.Injective index :=
  fun _ _ h => congrArg mk (BitVec.eq_of_toNat_eq h)

theorem index_ofIndex {i : ℕ} (h : i < 2 ^ maxEvents) : (ofIndex i).index = i :=
  Nat.mod_eq_of_lt h

theorem eventSet_ofIndex {i : ℕ} (h : i < 2 ^ maxEvents) :
    (ofIndex i).eventSet = Finset.equivBitIndices i := by
  rw [eventSet, index_ofIndex h]

theorem eventSet_subset_range {c : Cell} {n : ℕ} :
    c.eventSet ⊆ Finset.range n ↔ c.index < 2 ^ n :=
  equivBitIndices_subset_range

theorem eventSet_subset (c : Cell) : c.eventSet ⊆ Finset.range maxEvents :=
  eventSet_subset_range.mpr c.mask.isLt

theorem eventSet_injective : Function.Injective eventSet :=
  Finset.equivBitIndices.injective.comp index_injective

/-- Every set of events that fit is that of a cell. -/
theorem exists_eventSet_eq {s : Finset ℕ} (h : s ⊆ Finset.range maxEvents) :
    ∃ c : Cell, c.eventSet = s := by
  obtain ⟨i, rfl⟩ := Finset.equivBitIndices.surjective s
  exact ⟨ofIndex i, eventSet_ofIndex (equivBitIndices_subset_range.mp h)⟩

/-! ## 2. Inclusion -/

theorem isSubsetOf_iff {c d : Cell} : c.isSubsetOf d = true ↔ c.eventSet ⊆ d.eventSet := by
  rw [isSubsetOf, decide_eq_true_iff]
  constructor
  · intro h k hk
    rw [mem_eventSet, contains] at hk ⊢
    have hbit := congrArg (BitVec.getLsbD · k) h
    have hlt := BitVec.lt_of_getLsbD hk
    simpa [hk, hlt] using hbit
  · intro h
    apply BitVec.eq_of_getLsbD_eq
    intro k hk
    rw [BitVec.getLsbD_and, BitVec.getLsbD_not]
    cases hc : c.mask.getLsbD k with
    | false => simp
    | true =>
      have hd : d.mask.getLsbD k = true := mem_eventSet.mp (h (mem_eventSet.mpr hc))
      simp [hd]

theorem index_le_of_isSubsetOf {c d : Cell} (h : c.isSubsetOf d = true) : c.index ≤ d.index := by
  rw [isSubsetOf_iff] at h
  exact Nat.le_of_testBit fun _ hk => mem_eventSet.mp (h (mem_eventSet.mpr hk))

theorem isSubsetOf_refl (c : Cell) : c.isSubsetOf c = true := by
  rw [isSubsetOf_iff]

theorem isSubsetOf_trans {c d e : Cell} (hcd : c.isSubsetOf d = true)
    (hde : d.isSubsetOf e = true) : c.isSubsetOf e = true := by
  rw [isSubsetOf_iff] at hcd hde ⊢
  exact hcd.trans hde

/-! ## 3. Size -/

theorem size_eq_card (c : Cell) : c.size = c.eventSet.card := by
  have hset : c.eventSet =
      (Finset.range maxEvents).filter fun k => c.mask.getLsbD k = true := by
    ext k
    rw [mem_eventSet, Finset.mem_filter, Finset.mem_range]
    exact ⟨fun h => ⟨BitVec.lt_of_getLsbD h, h⟩, fun h => h.2⟩
  rw [hset, ← Word.cpopNatRec_eq_card, size, BitVec.toNat_cpop]

theorem size_le {c : Cell} {n : ℕ} (h : c.index < 2 ^ n) : c.size ≤ n := by
  have := Finset.card_le_card (eventSet_subset_range.mpr h)
  rwa [← size_eq_card, Finset.card_range] at this

/-- The indices below `2 ^ n` whose cells contain `c`. -/
def containing (n : ℕ) (c : Cell) : Finset ℕ :=
  (Finset.range (2 ^ n)).filter fun i => c.isSubsetOf (ofIndex i) = true

theorem mem_containing {n i : ℕ} {c : Cell} :
    i ∈ c.containing n ↔ i < 2 ^ n ∧ c.isSubsetOf (ofIndex i) = true := by
  rw [containing, Finset.mem_filter, Finset.mem_range]

/-- Adding any of the other events to `c` gives each cell that contains it once. -/
theorem card_containing {n : ℕ} (hn : n ≤ maxEvents) {c : Cell} (hc : c.index < 2 ^ n) :
    (containing n c).card = 2 ^ (n - c.size) := by
  have hsub : c.eventSet ⊆ Finset.range n := eventSet_subset_range.mpr hc
  have hmap : (containing n c).map Finset.equivBitIndices.toEmbedding =
      Finset.Icc c.eventSet (Finset.range n) := by
    -- every set is that of some number, and it lies in the range when the number is small enough
    ext s
    obtain ⟨i, rfl⟩ := Finset.equivBitIndices.surjective s
    rw [Finset.mem_map_equiv, Equiv.symm_apply_apply, containing, Finset.mem_filter,
      Finset.mem_range, Finset.mem_Icc, equivBitIndices_subset_range, and_comm]
    apply and_congr_left
    intro hi
    rw [isSubsetOf_iff, eventSet_ofIndex (hi.trans_le (Nat.pow_le_pow_right (by omega) hn))]
  rw [← Finset.card_map Finset.equivBitIndices.toEmbedding, hmap, Finset.card_Icc_finset hsub,
    Finset.card_range, size_eq_card]

/-! ## 4. All cells over `n` events -/

section Enumerated

variable {n : ℕ} {cells : Array Cell}

/-- An array of all cells has room for those over this many events. -/
def maxListed : ℕ := 59

theorem maxBytes_lt_iff : maxBytes < byteSize * 1 <<< n ↔ maxListed < n := by
  rw [Nat.one_shiftLeft, maxListed]
  constructor
  · intro h
    by_contra hle
    have hpow : 2 ^ n ≤ 2 ^ 59 := Nat.pow_le_pow_right (by decide) (Nat.not_lt.mp hle)
    exact absurd (h.trans_le (Nat.mul_le_mul_left byteSize hpow)) (by decide)
  · intro h
    have hpow : 2 ^ 60 ≤ 2 ^ n := Nat.pow_le_pow_right (by decide) h
    exact lt_of_lt_of_le (by decide) (Nat.mul_le_mul_left byteSize hpow)

theorem enumerate_of_le (h : n ≤ maxListed) :
    enumerate n = .ok ((Array.range (2 ^ n)).map ofIndex) := by
  have hevents : ¬ maxEvents < n := Nat.not_lt.mpr (h.trans (by decide))
  have hroom : ¬ maxBytes < byteSize * 1 <<< n := by
    rw [maxBytes_lt_iff]
    exact Nat.not_lt.mpr h
  rw [enumerate, if_neg hevents, if_neg hroom, Nat.one_shiftLeft]

theorem enumerate_of_lt (h : maxListed < n) (hevents : n ≤ maxEvents) :
    enumerate n = .error .capacityOverflow := by
  have hroom : maxBytes < byteSize * 1 <<< n := by rwa [maxBytes_lt_iff]
  rw [enumerate, if_neg (Nat.not_lt.mpr hevents), if_pos hroom]

theorem enumerate_eq_ok :
    enumerate n = .ok cells ↔ n ≤ maxListed ∧ (Array.range (2 ^ n)).map ofIndex = cells := by
  by_cases h : n ≤ maxListed
  · rw [enumerate_of_le h, Except.ok.injEq]
    exact (and_iff_right h).symm
  · have hfault : ∃ fault, enumerate n = .error fault := by
      by_cases hevents : n ≤ maxEvents
      · exact ⟨_, enumerate_of_lt (Nat.not_le.mp h) hevents⟩
      · exact ⟨_, if_pos (Nat.not_le.mp hevents)⟩
    obtain ⟨fault, hfault⟩ := hfault
    rw [hfault]
    simp [h]

variable (h : enumerate n = .ok cells)

include h

theorem le_maxEvents_of_enumerate : n ≤ maxEvents := by
  rw [enumerate_eq_ok] at h
  exact h.1.trans (by decide)

theorem size_of_enumerate : cells.size = 2 ^ n := by
  rw [enumerate_eq_ok] at h
  rw [← h.2, Array.size_map, Array.size_range]

theorem getElem?_of_enumerate {i : ℕ} (hi : i < 2 ^ n) : cells[i]? = some (ofIndex i) := by
  rw [enumerate_eq_ok] at h
  rw [← h.2, Array.getElem?_map, Array.getElem?_range]
  simp [hi]

/-- Indices of cells over at most 63 events are read back. -/
theorem index_ofIndex_of_enumerate {i : ℕ} (hi : i < 2 ^ n) : (ofIndex i).index = i :=
  index_ofIndex (hi.trans_le (Nat.pow_le_pow_right (by omega) (le_maxEvents_of_enumerate h)))

end Enumerated

end Credence.Cell
