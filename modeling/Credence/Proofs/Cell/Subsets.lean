import Mathlib
import Credence.Cell.Subsets
import Credence.Proofs.Cell.EventSet
import Credence.Proofs.Walk
import Credence.Proofs.Word

/-!
# The walk through the subsets of a cell

Every subset of a cell is visited once, in descending order of its index. The walk misses none
because the mask it steps to is the largest submask below the one it stands at. So it begins with
the cell, ends with the empty one, and is as long as the power set of the cell's events is large.
-/

namespace Credence.Cell

/-! ## 1. One step -/

theorem index_and_of_isSubsetOf {c d : Cell} (h : d.isSubsetOf c = true) :
    d.index &&& c.index = d.index := by
  apply Nat.eq_of_testBit_eq
  intro k
  rw [Nat.testBit_and]
  cases hk : d.index.testBit k with
  | false => rfl
  | true =>
    rw [Bool.true_and]
    exact mem_eventSet.mp (isSubsetOf_iff.mp h (mem_eventSet.mpr hk))

theorem eq_of_subsetBelow_eq_none {c s d : Cell} (h : c.subsetBelow s = none)
    (hd : d.index ≤ s.index) : d = s := by
  have hs : s.mask = 0 := by simpa [subsetBelow, isEmpty] using h
  have hindex : s.index = 0 := by rw [index, hs]; rfl
  exact index_injective (by omega)

theorem isSubsetOf_of_subsetBelow {c s t : Cell} (h : c.subsetBelow s = some t) :
    t.isSubsetOf c = true := by
  simp only [subsetBelow, Option.ite_none_left_eq_some, Option.some.injEq] at h
  rw [isSubsetOf_iff, ← h.2]
  intro k hk
  rw [mem_eventSet, contains, BitVec.getLsbD_and, Bool.and_eq_true] at hk
  exact mem_eventSet.mpr hk.2

theorem index_le_of_subsetBelow {c s t d : Cell} (hs : s.isSubsetOf c = true)
    (h : c.subsetBelow s = some t) (hd : d.isSubsetOf c = true) (hlt : d.index < s.index) :
    d.index ≤ t.index := by
  simp only [subsetBelow, isEmpty, decide_eq_true_eq, Option.ite_none_left_eq_some,
    Option.some.injEq] at h
  obtain ⟨hne, rfl⟩ := h
  rw [index, index, BitVec.toNat_and, Word.toNat_sub_one hne]
  exact Word.le_sub_one_and (index_and_of_isSubsetOf hs) (index_and_of_isSubsetOf hd) hlt

/-! ## 2. The whole walk -/

namespace SubsetWalk

theorem toList_none (c : Cell) : toList ⟨c, none⟩ = [] := by
  rw [toList]
  rfl

theorem toList_some (c s : Cell) : toList ⟨c, some s⟩ = s :: toList ⟨c, c.subsetBelow s⟩ := by
  rw [toList]
  rfl

theorem mem_toList {c s : Cell} (hs : s.isSubsetOf c = true) (d : Cell) :
    d ∈ toList ⟨c, some s⟩ ↔ d.isSubsetOf c = true ∧ d.index ≤ s.index := by
  -- on the index of the subset to come next
  induction hk : s.index using Nat.strong_induction_on generalizing s with
  | h k ih =>
    subst hk
    rw [toList_some, List.mem_cons]
    cases hbelow : c.subsetBelow s with
    | none =>
      rw [toList_none]
      constructor
      · rintro (rfl | hd)
        · exact ⟨hs, Nat.le_refl _⟩
        · exact absurd hd List.not_mem_nil
      · rintro ⟨-, hle⟩
        exact .inl (eq_of_subsetBelow_eq_none hbelow hle)
    | some t =>
      have hlt := index_lt_of_subsetBelow hbelow
      rw [ih t.index hlt (isSubsetOf_of_subsetBelow hbelow) rfl]
      constructor
      · rintro (rfl | ⟨hd, hle⟩)
        · exact ⟨hs, Nat.le_refl _⟩
        · exact ⟨hd, by omega⟩
      -- a smaller subset is not missed: it does not exceed the one stepped to
      · rintro ⟨hd, hle⟩
        rcases Nat.eq_or_lt_of_le hle with heq | hlt'
        · exact .inl (index_injective heq)
        · exact .inr ⟨hd, index_le_of_subsetBelow hs hbelow hd hlt'⟩

theorem pairwise_toList {c s : Cell} (hs : s.isSubsetOf c = true) :
    (toList ⟨c, some s⟩).Pairwise fun d e => e.index < d.index := by
  induction hk : s.index using Nat.strong_induction_on generalizing s with
  | h k ih =>
    subst hk
    rw [toList_some, List.pairwise_cons]
    cases hbelow : c.subsetBelow s with
    | none =>
      rw [toList_none]
      exact ⟨fun _ h => absurd h List.not_mem_nil, .nil⟩
    | some t =>
      have hlt := index_lt_of_subsetBelow hbelow
      have ht := isSubsetOf_of_subsetBelow hbelow
      refine ⟨fun d hd => ?_, ih t.index hlt ht rfl⟩
      rw [mem_toList ht] at hd
      omega

theorem yields_toList (w : SubsetWalk) : Walk.Yields next w w.toList := by
  apply Walk.yields_of_step
  · intro w w' h
    obtain ⟨c, upcoming⟩ := w
    cases upcoming with
    | none =>
      cases h
      exact ⟨toList_none c, rfl⟩
    | some s => cases h
  · intro w t w' h
    obtain ⟨c, upcoming⟩ := w
    cases upcoming with
    | none => cases h
    | some s =>
      cases h
      exact toList_some c t

end SubsetWalk

theorem mem_subsets {c d : Cell} : d ∈ c.subsets ↔ d.isSubsetOf c = true := by
  rw [subsets, subsetWalk, SubsetWalk.mem_toList (isSubsetOf_refl c)]
  exact ⟨fun h => h.1, fun h => ⟨h, index_le_of_isSubsetOf h⟩⟩

theorem pairwise_subsets (c : Cell) : c.subsets.Pairwise fun d e => e.index < d.index :=
  SubsetWalk.pairwise_toList (isSubsetOf_refl c)

theorem nodup_subsets (c : Cell) : c.subsets.Nodup :=
  (pairwise_subsets c).imp fun h hde => by
    rw [hde] at h
    exact Nat.lt_irrefl _ h

/-! ## 3. The power set -/

theorem head?_subsets (c : Cell) : c.subsets.head? = some c := by
  rw [subsets, subsetWalk, SubsetWalk.toList_some, List.head?_cons]

/-- The empty cell is visited, and nothing can come after it. -/
theorem getLast?_subsets (c : Cell) : c.subsets.getLast? = some empty := by
  have hmem : empty ∈ c.subsets := by
    rw [mem_subsets, isSubsetOf_iff]
    exact Finset.empty_subset _
  obtain ⟨before, after, hsplit⟩ := List.append_of_mem hmem
  have hpairwise := pairwise_subsets c
  rw [hsplit, List.pairwise_append, List.pairwise_cons] at hpairwise
  have hafter : after = [] := by
    apply List.eq_nil_iff_forall_not_mem.mpr
    intro d hd
    exact Nat.not_lt_zero _ (hpairwise.2.1.1 d hd)
  rw [hsplit, hafter, List.getLast?_append, List.getLast?_singleton, Option.some_or]

theorem toFinset_map_subsets (c : Cell) :
    (c.subsets.map eventSet).toFinset = c.eventSet.powerset := by
  ext s
  rw [List.mem_toFinset, List.mem_map, Finset.mem_powerset]
  constructor
  · rintro ⟨d, hd, rfl⟩
    exact isSubsetOf_iff.mp (mem_subsets.mp hd)
  · intro hs
    obtain ⟨d, rfl⟩ := exists_eventSet_eq (hs.trans c.eventSet_subset)
    exact ⟨d, mem_subsets.mpr (isSubsetOf_iff.mpr hs), rfl⟩

theorem length_subsets (c : Cell) : c.subsets.length = 2 ^ c.size := by
  have hnodup : (c.subsets.map eventSet).Nodup :=
    c.nodup_subsets.map eventSet_injective
  calc c.subsets.length
    _ = (c.subsets.map eventSet).toFinset.card := by
      rw [List.toFinset_card_of_nodup hnodup, List.length_map]
    _ = 2 ^ c.size := by
      rw [toFinset_map_subsets, Finset.card_powerset, size_eq_card]

/-- The walk returns the power set of a cell, in descending order from the cell itself down to the
empty one, and after that nothing. -/
theorem yields_subsets (c : Cell) :
    Walk.Yields SubsetWalk.next c.subsetWalk c.subsets ∧
    c.subsets.length = 2 ^ c.size ∧
    c.subsets.Pairwise (fun d e => e.index < d.index) ∧
    c.subsets.head? = some c ∧
    c.subsets.getLast? = some empty ∧
    ∀ d, d ∈ c.subsets ↔ d.isSubsetOf c = true :=
  ⟨c.subsetWalk.yields_toList, length_subsets c, pairwise_subsets c, head?_subsets c,
    getLast?_subsets c, fun _ => mem_subsets⟩

/-- From the mask 4 to the mask 1 the walk passes over the event that the cell does not have. -/
example : (ofIndex 5).subsets.map index = [5, 4, 1, 0] := by decide +kernel

end Credence.Cell
