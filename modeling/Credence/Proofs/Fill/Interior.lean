import Credence.Proofs.Bits.WellFormed
import Credence.Proofs.Cell.EventSet

/-!
# Interiors of coverages

A coverage is upward closed when it has with a cell also the cells that contain it. Among the upward
closed ones within a coverage there is at most one largest, its interior. Interiors grow with the
coverage, and that of an intersection is the intersection of the interiors.
-/

namespace Credence.Bits

/-- With each selected cell, the cells that contain it are selected. -/
def UpwardClosed (coverage : Bits) : Prop :=
  ∀ i j, j < coverage.length → (Cell.ofIndex i).isSubsetOf (Cell.ofIndex j) = true →
    coverage.contains i = true → coverage.contains j = true

/-- Every selected cell of the one is selected in the other. -/
instance : HasSubset Bits := ⟨fun a b => ∀ i, a.contains i = true → b.contains i = true⟩

theorem subset_trans {a b c : Bits} (hab : a ⊆ b) (hbc : b ⊆ c) : a ⊆ c :=
  fun i hi => hbc i (hab i hi)

theorem WellFormed.subset_antisymm {a b : Bits} (ha : a.WellFormed) (hb : b.WellFormed)
    (hlen : a.length = b.length) (hab : a ⊆ b) (hba : b ⊆ a) : a = b := by
  apply ha.ext hb hlen
  intro i
  exact Bool.eq_iff_iff.mpr ⟨hab i, hba i⟩

/-- The row is upward closed and within the coverage, and no upward closed row of its length within
the coverage has more. -/
structure Interior (coverage row : Bits) : Prop where
  wellFormed : row.WellFormed
  length_eq : row.length = coverage.length
  subset : row ⊆ coverage
  upwardClosed : row.UpwardClosed
  largest : ∀ up : Bits, up.length = coverage.length → up.UpwardClosed → up ⊆ coverage → up ⊆ row

theorem Interior.mono {a b r s : Bits} (hr : Interior a r) (hs : Interior b s)
    (hlen : a.length = b.length) (hab : a ⊆ b) : r ⊆ s :=
  hs.largest r (hr.length_eq.trans hlen) hr.upwardClosed (subset_trans hr.subset hab)

theorem Interior.unique {a r s : Bits} (hr : Interior a r) (hs : Interior a s) : r = s :=
  hr.wellFormed.subset_antisymm hs.wellFormed (hr.length_eq.trans hs.length_eq.symm)
    (hr.mono hs rfl fun _ hi => hi) (hs.mono hr rfl fun _ hi => hi)

/-- An upward closed coverage is its own interior. -/
theorem UpwardClosed.interior {a : Bits} (h : a.UpwardClosed) (hwell : a.WellFormed) :
    Interior a a where
  wellFormed := hwell
  length_eq := rfl
  subset := fun _ hi => hi
  upwardClosed := h
  largest := fun _ _ _ hsub => hsub

/-- The interior of an intersection is the intersection of the interiors. -/
theorem Interior.inter {a b r s : Bits} (ha : a.WellFormed) (hb : b.WellFormed)
    (hlen : a.length = b.length) (hr : Interior a r) (hs : Interior b s) :
    ∃ c t, a.inter b = .ok c ∧ c.WellFormed ∧ c.length = a.length ∧ r.inter s = .ok t ∧
      Interior c t := by
  have hlen' : r.length = s.length := by rw [hr.length_eq, hs.length_eq, hlen]
  obtain ⟨c, hinter, hc, hclen, hcbits⟩ := inter_spec ha hb hlen
  obtain ⟨t, hinter', ht, htlen, htbits⟩ := inter_spec hr.wellFormed hs.wellFormed hlen'
  have hmem (i : ℕ) : c.contains i = true ↔ a.contains i = true ∧ b.contains i = true := by
    rw [hcbits, Bool.and_eq_true]
  have hmem' (i : ℕ) : t.contains i = true ↔ r.contains i = true ∧ s.contains i = true := by
    rw [htbits, Bool.and_eq_true]
  refine ⟨c, t, hinter, hc, hclen, hinter', ht, ?_, ?_, ?_, ?_⟩
  · rw [htlen, hr.length_eq, hclen]
  · intro i hi
    obtain ⟨hir, his⟩ := (hmem' i).mp hi
    exact (hmem i).mpr ⟨hr.subset i hir, hs.subset i his⟩
  · intro i j hj hsub hi
    obtain ⟨hir, his⟩ := (hmem' i).mp hi
    rw [htlen] at hj
    exact (hmem' j).mpr ⟨hr.upwardClosed i j hj hsub hir,
      hs.upwardClosed i j (hlen' ▸ hj) hsub his⟩
  -- what is upward closed within both lies in both interiors
  · intro up hup hclosed hsub i hi
    rw [hclen] at hup
    refine (hmem' i).mpr ⟨?_, ?_⟩
    · exact hr.largest up hup hclosed (fun k hk => ((hmem k).mp (hsub k hk)).1) i hi
    · exact hs.largest up (hup.trans hlen) hclosed (fun k hk => ((hmem k).mp (hsub k hk)).2) i hi

end Credence.Bits
