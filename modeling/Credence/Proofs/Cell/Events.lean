import Mathlib
import Credence.Proofs.Cell.EventSet

/-!
# Cells from lists of events

A list of events below 63 names a cell, however it is ordered and whatever it repeats. The cell
lists the same events in ascending order, each of them once, and that list names the cell again.
-/

namespace Credence.Cell

/-! ## 1. The events of a cell in order -/

theorem mem_events {c : Cell} {i : ℕ} : i ∈ c.events ↔ c.contains i = true := by
  rw [events, List.mem_filter, List.mem_range]
  exact ⟨fun h => h.2, fun h => ⟨BitVec.lt_of_getLsbD h, h⟩⟩

theorem pairwise_events (c : Cell) : c.events.Pairwise (· < ·) :=
  List.pairwise_lt_range.filter _

theorem toFinset_events (c : Cell) : c.events.toFinset = c.eventSet := by
  ext i
  rw [List.mem_toFinset, mem_events, mem_eventSet]

theorem events_eq_sort (c : Cell) : c.events = c.eventSet.sort := by
  -- both lists ascend, so it is enough that they have the same members
  apply List.Pairwise.eq_of_mem_iff (pairwise_events c) (Finset.sortedLT_sort _).pairwise
  intro i
  rw [Finset.mem_sort, mem_events, mem_eventSet]

theorem size_eq_length_events (c : Cell) : c.size = c.events.length := by
  rw [events_eq_sort, Finset.length_sort, size_eq_card]

theorem contains_of_le (c : Cell) {i : ℕ} (h : maxEvents ≤ i) : c.contains i = false :=
  BitVec.getLsbD_of_ge c.mask i h

theorem isSubsetOf_iff_events {c d : Cell} :
    c.isSubsetOf d = true ↔ ∀ i ∈ c.events, i ∈ d.events := by
  rw [isSubsetOf_iff, ← toFinset_events, ← toFinset_events]
  constructor
  · intro h i hi
    exact List.mem_toFinset.mp (h (List.mem_toFinset.mpr hi))
  · intro h i hi
    exact List.mem_toFinset.mpr (h i (List.mem_toFinset.mp hi))

/-! ## 2. The cell of given events -/

section Named

variable {named : List ℕ} {mask mask' : BitVec 64} {c : Cell}

theorem exists_foldlM_addEvent (h : ∀ i ∈ named, i < 64) (mask : BitVec 64) :
    ∃ mask', named.foldlM addEvent mask = .ok mask' ∧
      ∀ k, mask'.getLsbD k = (mask.getLsbD k || decide (k ∈ named)) := by
  induction named generalizing mask with
  | nil => exact ⟨mask, rfl, fun k => by simp⟩
  | cons i named ih =>
    have hi : i < 64 := h i List.mem_cons_self
    obtain ⟨mask', hfold, hbit⟩ :=
      ih (fun j hj => h j (List.mem_cons_of_mem i hj)) (mask ||| BitVec.twoPow 64 i)
    refine ⟨mask', ?_, fun k => ?_⟩
    · rw [List.foldlM_cons, addEvent, if_pos hi]
      exact hfold
    · rw [hbit, BitVec.getLsbD_or, BitVec.getLsbD_twoPow, decide_eq_true hi, Bool.true_and,
        Bool.or_assoc, ← Bool.decide_or]
      simp only [List.mem_cons, eq_comm]

theorem lt_of_foldlM_addEvent (h : named.foldlM addEvent mask = .ok mask') :
    ∀ i ∈ named, i < 64 := by
  induction named generalizing mask with
  | nil => exact List.forall_mem_nil _
  | cons i named ih =>
    rw [List.foldlM_cons] at h
    obtain ⟨added, hadd, hrest⟩ := exists_ok_of_bind h
    have hi : i < 64 := by
      by_contra hge
      rw [addEvent, if_neg hge] at hadd
      cases hadd
    exact List.forall_mem_cons.mpr ⟨hi, ih hrest⟩

/-- A mask makes a cell if its top bit, which no cell has, is clear. -/
theorem ofMask_eq_ok_iff :
    ofMask mask = .ok c ↔
      mask.getLsbD maxEvents = false ∧ ∀ k, c.contains k = mask.getLsbD k := by
  have hbit (k : ℕ) : (mask.setWidth maxEvents).getLsbD k =
      (decide (k < maxEvents) && mask.getLsbD k) := BitVec.getLsbD_setWidth _ _ _
  rw [ofMask]
  constructor
  · intro h
    cases htop : mask.getLsbD maxEvents with
    | true =>
      rw [htop, if_pos rfl] at h
      cases h
    | false =>
      rw [htop, if_neg (by decide)] at h
      cases h
      refine ⟨rfl, fun k => ?_⟩
      rw [contains, hbit]
      by_cases hk : k < maxEvents
      · rw [decide_eq_true hk, Bool.true_and]
      · have hclear : mask.getLsbD k = false := by
          rcases Nat.eq_or_lt_of_le (Nat.le_of_not_lt hk) with heq | hlt
          · rw [← heq, htop]
          · exact BitVec.getLsbD_of_ge mask k hlt
        rw [hclear, Bool.and_false]
  · rintro ⟨htop, hcontains⟩
    rw [htop, if_neg (by decide)]
    have hmask : mask.setWidth maxEvents = c.mask := by
      apply BitVec.eq_of_getLsbD_eq
      intro k hk
      rw [hbit, decide_eq_true hk, Bool.true_and, ← hcontains, contains]
    rw [hmask]

theorem ofEvents_eq_ok_iff :
    ofEvents named = .ok c ↔ (∀ i ∈ named, i < maxEvents) ∧ c.eventSet = named.toFinset := by
  constructor
  · intro h
    obtain ⟨mask, hfold, hmask⟩ := exists_ok_of_bind h
    have hlt := lt_of_foldlM_addEvent hfold
    obtain ⟨mask', hfold', hbit⟩ := exists_foldlM_addEvent hlt 0
    rw [hfold] at hfold'
    cases hfold'
    obtain ⟨htop, hcontains⟩ := ofMask_eq_ok_iff.mp hmask
    constructor
    · intro i hi
      -- event 63 would have set the top bit
      have hne : i ≠ maxEvents := by
        rintro rfl
        rw [hbit, decide_eq_true hi, Bool.or_true] at htop
        cases htop
      exact Nat.lt_of_le_of_ne (Nat.le_of_lt_succ (hlt i hi)) hne
    · ext i
      rw [mem_eventSet, hcontains, hbit, List.mem_toFinset]
      simp
  · rintro ⟨hlt, hset⟩
    obtain ⟨mask, hfold, hbit⟩ :=
      exists_foldlM_addEvent (fun i hi => (hlt i hi).trans (by decide)) 0
    have htop : maxEvents ∉ named := fun hmem => Nat.lt_irrefl _ (hlt _ hmem)
    rw [ofEvents, hfold]
    apply ofMask_eq_ok_iff.mpr
    constructor
    · rw [hbit, decide_eq_false htop]
      simp
    · intro k
      rw [hbit, Bool.eq_iff_iff, ← mem_eventSet, hset, List.mem_toFinset]
      simp

theorem exists_ofEvents (h : ∀ i ∈ named, i < maxEvents) : ∃ c, ofEvents named = .ok c := by
  have hsub : named.toFinset ⊆ Finset.range maxEvents := by
    intro i hi
    exact Finset.mem_range.mpr (h i (List.mem_toFinset.mp hi))
  obtain ⟨c, hc⟩ := exists_eventSet_eq hsub
  exact ⟨c, ofEvents_eq_ok_iff.mpr ⟨h, hc⟩⟩

end Named

/-- A list names a cell exactly if its events are below 63, and the cell's own list is the sorted
one without repetitions. Cells are the sets of their events: named by them, as large as they are
many, and included in one another and ordered as the sets are. -/
theorem events_of_ofEvents (named : List ℕ) (c d : Cell) :
    ((∃ e, ofEvents named = .ok e) ↔ ∀ i ∈ named, i < maxEvents) ∧
    (∀ e, ofEvents named = .ok e → e.events = named.toFinset.sort) ∧
    ofEvents c.events = .ok c ∧
    c.size = c.events.length ∧
    (∀ i, c.contains i = true ↔ i ∈ c.events) ∧
    (∀ i, maxEvents ≤ i → c.contains i = false) ∧
    (c.isSubsetOf d = true ↔ ∀ i ∈ c.events, i ∈ d.events) ∧
    (c.isSubsetOf d = true → c.index ≤ d.index) := by
  have hlt : ∀ i ∈ c.events, i < maxEvents := by
    intro i hi
    exact BitVec.lt_of_getLsbD (mem_events.mp hi)
  refine ⟨⟨?_, exists_ofEvents⟩, ?_, ofEvents_eq_ok_iff.mpr ⟨hlt, (toFinset_events c).symm⟩,
    size_eq_length_events c, fun i => mem_events.symm, fun i => contains_of_le c,
    isSubsetOf_iff_events, index_le_of_isSubsetOf⟩
  · rintro ⟨e, he⟩
    exact (ofEvents_eq_ok_iff.mp he).1
  · intro e he
    rw [events_eq_sort, (ofEvents_eq_ok_iff.mp he).2]

/-- The largest event is in the last bit of the mask. -/
example : (ofEvents [62, 0, 62]).map events = .ok [0, 62] := by decide +kernel

end Credence.Cell
