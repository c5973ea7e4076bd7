import Mathlib
import Credence.Proofs.LinearSystem.History
import Credence.Proofs.LinearSystem.Shape

/-!
# Safety of a system

Whatever the arithmetic yields, each pivot has a row of its own, so a row that is looked up by the
number of its pivot is there. A system that has been given equations that fit it, and is asked for a
target that fits it, answers or refuses, and is never at fault.
-/

namespace Credence

/-! ## 1. Operations without fault -/

/-- The data may be refused, but the call is not at fault. -/
def Faultless {ε α : Type} (x : Except (Failure ε) α) : Prop :=
  ∀ fault, x ≠ .error (.fault fault)

namespace Faultless

variable {ε ε' α β : Type}

theorem ok (a : α) : Faultless (.ok a : Except (Failure ε) α) := by
  intro fault h
  cases h

theorem refused (error : ε) : Faultless (.error (.refused error) : Except (Failure ε) α) := by
  intro fault h
  cases h

theorem cases {x : Except (Failure ε) α} (h : Faultless x) :
    (∃ a, x = .ok a) ∨ ∃ error, x = .error (.refused error) := by
  cases x with
  | ok a => exact .inl ⟨a, rfl⟩
  | error failure =>
    cases failure with
    | refused error => exact .inr ⟨error, rfl⟩
    | fault fault => exact absurd rfl (h fault)

theorem bind {x : Except (Failure ε) α} {f : α → Except (Failure ε) β} (hx : Faultless x)
    (hf : ∀ a, Faultless (f a)) : Faultless (x >>= f) := by
  obtain ⟨a, rfl⟩ | ⟨error, rfl⟩ := hx.cases
  · exact hf a
  · exact refused error

theorem foldlM {f : β → α → Except (Failure ε) β} (hf : ∀ b a, Faultless (f b a)) (xs : List α)
    (b : β) : Faultless (xs.foldlM f b) := by
  induction xs generalizing b with
  | nil => exact ok b
  | cons x xs ih =>
    rw [List.foldlM_cons]
    exact (hf b x).bind ih

end Faultless

/-! ## 2. Pivots and rows -/

theorem Sweep.length_pivots_le {α : Type} {n : ℕ} (s : Sweep α n) :
    s.pivots.length ≤ s.rows.length := by
  unfold Sweep.pivots Sweep.rows
  rw [List.length_append, List.length_map, List.length_map]
  exact Nat.le_add_right _ _

namespace LinearSystem

/-- There are no more known pivots than rows. -/
def Backed {α : Type} {n : ℕ} (s : LinearSystem α n) : Prop :=
  (s.pivots.getD []).length ≤ s.rows.length

variable {α : Type} [Scalar α] {n : ℕ} {s : LinearSystem α n}

theorem backed_reduce (s : LinearSystem α n) : s.reduce.Backed :=
  (Sweep.run s.tolerance s.rows).length_pivots_le

theorem Backed.ensureReduced (h : s.Backed) : s.ensureReduced.Backed := by
  unfold LinearSystem.ensureReduced
  split
  next => exact h
  next => exact backed_reduce s

theorem invariant_backed {t : α} (ht : 0 ≤ t) :
    Invariant t fun _ (s : LinearSystem α n) => s.Backed where
  new := ⟨_, if_pos ht, Nat.zero_le _⟩
  push := fun _ _ hfit constant => ⟨_, push_eq_ok hfit constant, Nat.zero_le _⟩
  reduce := fun _ => backed_reduce _

/-! ## 3. Solving -/

theorem faultless_clearColumn {pivots : List (Fin (n + 1))} (h : pivots.length ≤ s.rows.length)
    (target : Row α n) (j : Fin (n + 1)) : Faultless (s.clearColumn pivots target j) := by
  simp only [clearColumn]
  split
  next => exact .ok target
  next =>
    split
    next => exact .refused _
    next p hfind =>
      obtain ⟨hp, -⟩ := List.findIdx?_eq_some_iff_getElem.mp hfind
      -- the number of a pivot is the number of a row
      rw [List.getElem?_eq_getElem (hp.trans_le h)]
      exact .ok _

theorem faultless_clear {pivots : List (Fin (n + 1))} (h : pivots.length ≤ s.rows.length)
    (target : Row α n) : Faultless (s.clear pivots target) := by
  unfold clear
  split
  next => exact .refused _
  next => exact (Faultless.foldlM (faultless_clearColumn h) _ target).bind fun _ => .ok _

theorem Backed.faultless_solveFor (h : s.Backed) {target : Bits} (htarget : target.length = n) :
    Faultless (s.solveFor target).1 := by
  unfold solveFor
  rw [if_pos htarget]
  exact faultless_clear h.ensureReduced _

end LinearSystem
end Credence
