import Mathlib

/-!
# Walks

A walk is known by its step: a call returns an item or nothing, and what is left of the walk. The
items that the calls return one after the other are those of a list, if the list changes with the
walk as it does at each step, and if a walk that has returned nothing stays where it is.
-/

namespace Credence.Walk

variable {σ α : Type} {next : σ → Option α × σ}

/-- What the call after `k` others returns. -/
def item (next : σ → Option α × σ) : σ → ℕ → Option α
  | s, 0 => (next s).1
  | s, k + 1 => item next (next s).2 k

/-- The calls return these items in turn, and from then on nothing. -/
def Yields (next : σ → Option α × σ) (s : σ) (items : List α) : Prop :=
  ∀ k, item next s k = items[k]?

theorem yields_of_step {items : σ → List α}
    (hend : ∀ s s', next s = (none, s') → items s = [] ∧ next s' = (none, s'))
    (hstep : ∀ s a s', next s = (some a, s') → items s = a :: items s') (s : σ) :
    Yields next s (items s) := by
  intro k
  induction k generalizing s with
  | zero =>
    cases hnext : next s with
    | mk a s' =>
      cases a with
      | none => rw [item, hnext, (hend s s' hnext).1, List.getElem?_nil]
      | some a => rw [item, hnext, hstep s a s' hnext, List.getElem?_cons_zero]
  | succ k ih =>
    cases hnext : next s with
    | mk a s' =>
      rw [item, hnext, ih]
      cases a with
      -- nothing is left, before this call and after it
      | none =>
        have hs := hend s s' hnext
        have hs' := hend s' s' hs.2
        rw [hs.1, hs'.1, List.getElem?_nil, List.getElem?_nil]
      | some a => rw [hstep s a s' hnext, List.getElem?_cons_succ]

/-- A walk that returns nothing once returns nothing any more. -/
theorem Yields.item_of_le {s : σ} {items : List α} (h : Yields next s items) {j k : ℕ}
    (hj : item next s j = none) (hle : j ≤ k) : item next s k = none := by
  rw [h, List.getElem?_eq_none_iff] at hj ⊢
  exact hj.trans hle

end Credence.Walk
