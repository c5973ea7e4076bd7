import Mathlib
import Credence.Inference.Equations
import Credence.Proofs.Bits.WellFormed
import Credence.Proofs.LinearSystem.Clearing
import Credence.Proofs.LinearSystem.History

/-!
# Determined probabilities

Equations determine the probability of some cells when they have a solution and all their solutions
agree on those cells. Over exact numbers and without tolerance a system answers exactly in that
case, with the probability that the equations determine, whatever it has been asked before.
-/

namespace Credence

variable {n : ℕ}

/-- The probability of the selected cells. -/
def Bits.weight (b : Bits) (x : Fin n → ℚ) : ℚ := ∑ i : Fin n, if b.contains i then x i else 0

/-- All cells together have probability one, and the selected cells of each equation have the
probability that it says. -/
def Solves (equations : List (Bits × ℚ)) (x : Fin n → ℚ) : Prop :=
  ∑ i, x i = 1 ∧ ∀ e ∈ equations, e.1.weight x = e.2

/-- The equations can be solved, and all solutions give the selected cells the same probability. -/
structure Determines (n : ℕ) (equations : List (Bits × ℚ)) (target : Bits) (p : ℚ) : Prop where
  solvable : ∃ x : Fin n → ℚ, Solves equations x
  agree : ∀ x : Fin n → ℚ, Solves equations x → target.weight x = p

theorem Determines.unique {equations : List (Bits × ℚ)} {target : Bits} {p q : ℚ}
    (hp : Determines n equations target p) (hq : Determines n equations target q) : p = q := by
  obtain ⟨x, hx⟩ := hp.solvable
  rw [← hp.agree x hx, hq.agree x hx]

/-! ## 1. Equations as rows -/

theorem Row.ofBits_dotProduct (b : Bits) (c : ℚ) (x : Fin n → ℚ) :
    (Row.ofBits b c : Row ℚ n).get ⬝ᵥ withConstant x = b.weight x - c := by
  rw [dotProduct_withConstant, Row.get_ofBits_last, Bits.weight]
  simp only [Row.get_ofBits_castSucc, ite_mul, one_mul, zero_mul]

theorem Row.replicate_one_dotProduct (x : Fin n → ℚ) :
    (Vector.replicate (n + 1) (1 : ℚ)).get ⬝ᵥ withConstant x = ∑ i, x i - 1 := by
  rw [dotProduct_withConstant, Row.get_replicate_one]
  simp only [one_mul]

namespace LinearSystem

theorem solves_iff_holds (equations : List (Bits × ℚ)) (x : Fin n → ℚ) :
    Solves equations x ↔ AllHold (rowsOf n equations) x := by
  simp only [Solves, AllHold, rowsOf, List.forall_mem_cons, List.forall_mem_map, Row.holds_iff,
    Row.ofBits_dotProduct, Row.replicate_one_dotProduct, sub_eq_zero]

theorem Represents.solves_iff {equations : List (Bits × ℚ)} {s : LinearSystem ℚ n}
    (h : Represents equations s) (x : Fin n → ℚ) :
    Solves equations x ↔ AllHold (Sweep.run 0 s.rows).rows x := by
  have hspace : rowSpace (rowsOf n equations) = rowSpace (Sweep.run 0 s.rows).rows := by
    rw [Sweep.rowSpace_run le_rfl, h.space]
  rw [solves_iff_holds]
  exact ⟨holds_of_rowSpace_eq hspace, holds_of_rowSpace_eq hspace.symm⟩

/-! ## 2. The three outcomes -/

theorem Represents.solveFor_eq {equations : List (Bits × ℚ)} {s : LinearSystem ℚ n}
    (h : Represents equations s) {target : Bits} (htarget : target.length = n) :
    s.solveFor target =
      (s.reduce.clear (Sweep.run 0 s.rows).pivots (Row.ofBits target 0), s.reduce) := by
  have hpivots : s.reduce.pivots.getD [] = (Sweep.run 0 s.rows).pivots := by
    simp only [LinearSystem.reduce, h.tolerance, Option.getD_some]
  rw [solveFor, if_pos htarget]
  simp only [h.ensureReduced_eq, hpivots]

theorem Represents.solveFor_cases {equations : List (Bits × ℚ)} {s : LinearSystem ℚ n}
    (h : Represents equations s) {target : Bits} (htarget : target.length = n) :
    ((s.solveFor target).1 = .error (.refused .inconsistent) ∧
      ¬ ∃ x : Fin n → ℚ, Solves equations x) ∨
    (∃ p, (s.solveFor target).1 = .ok p ∧ Determines n equations target p) ∨
    ∃ column, (s.solveFor target).1 = .error (.refused (.noPivot column)) ∧
      ∃ x x' : Fin n → ℚ, Solves equations x ∧ Solves equations x' ∧
        target.weight x' ≠ target.weight x := by
  have htol : s.reduce.tolerance = 0 := h.tolerance
  have hrows : s.reduce.rows = (Sweep.run 0 s.rows).rows := by
    simp only [LinearSystem.reduce, h.tolerance]
  have hcases := clear_cases (Sweep.echelon_run s.rows) htol hrows (Row.ofBits target 0)
  simp only [← h.solves_iff, Row.ofBits_dotProduct, sub_zero] at hcases
  rw [h.solveFor_eq htarget]
  obtain hnone | ⟨hsome, ⟨p, hp, hall⟩ | hfree⟩ := hcases
  · exact .inl hnone
  · exact .inr (.inl ⟨p, hp, ⟨hsome, hall⟩⟩)
  · exact .inr (.inr hfree)

theorem Represents.solveFor_eq_ok_iff {equations : List (Bits × ℚ)} {s : LinearSystem ℚ n}
    (h : Represents equations s) {target : Bits} (htarget : target.length = n) (p : ℚ) :
    (s.solveFor target).1 = .ok p ↔ Determines n equations target p := by
  obtain ⟨hout, hnone⟩ | ⟨q, hout, hq⟩ | ⟨column, hout, x, x', hx, hx', hne⟩ :=
    h.solveFor_cases htarget
  · rw [hout]
    exact ⟨fun h => absurd h (by simp), fun hp => absurd hp.solvable hnone⟩
  · rw [hout, Except.ok.injEq]
    constructor
    · rintro rfl
      exact hq
    · exact hq.unique
  · rw [hout]
    refine ⟨fun h => absurd h (by simp), fun hp => absurd ?_ hne⟩
    rw [hp.agree x hx, hp.agree x' hx']

theorem Represents.exists_obstacle {equations : List (Bits × ℚ)} {s : LinearSystem ℚ n}
    (h : Represents equations s) {target : Bits} (htarget : target.length = n)
    (hnot : ∀ p, ¬ Determines n equations target p) :
    ∃ obstacle, (s.solveFor target).1 = .error (.refused obstacle) := by
  obtain ⟨hout, -⟩ | ⟨p, -, hp⟩ | ⟨column, hout, -⟩ := h.solveFor_cases htarget
  · exact ⟨_, hout⟩
  · exact absurd hp (hnot p)
  · exact ⟨_, hout⟩

/-! ## 3. Answers -/

theorem result_solveSystem {α : Type} [Scalar α] (s : LinearSystem α n) (target : Bits) :
    (solveSystem s target).result =
      (s.solveFor target).1.mapError (Failure.map fun _ => .underdetermined) := by
  rw [solveSystem]
  rcases s.solveFor target with ⟨(obstacle | fault) | p, reduced⟩ <;> rfl

theorem Represents.result_solveSystem_eq_ok_iff {equations : List (Bits × ℚ)}
    {s : LinearSystem ℚ n} (h : Represents equations s) {target : Bits}
    (htarget : target.length = n) (p : ℚ) :
    (solveSystem s target).result = .ok p ↔ Determines n equations target p := by
  rw [result_solveSystem, ← h.solveFor_eq_ok_iff htarget]
  cases (s.solveFor target).1 with
  | error e => exact ⟨fun h => absurd h (by simp [Except.mapError]), fun h => absurd h (by simp)⟩
  | ok q => simp [Except.mapError]

theorem Represents.result_solveSystem_eq_error {equations : List (Bits × ℚ)}
    {s : LinearSystem ℚ n} (h : Represents equations s) {target : Bits}
    (htarget : target.length = n) (hnot : ∀ p, ¬ Determines n equations target p) :
    (solveSystem s target).result = .error (.refused .underdetermined) := by
  obtain ⟨obstacle, hobstacle⟩ := h.exists_obstacle htarget hnot
  rw [result_solveSystem, hobstacle]
  rfl

/-- After any history a system answers with a probability exactly when the equations so far
determine it. Otherwise it refuses, and the probability counts as underdetermined. -/
theorem solveFor_after_eq_ok_iff {equations : List (Bits × ℚ)} {calls : List (Call ℚ)}
    {target : Bits} (hfit : Fit n (equations ++ pushed calls)) (htarget : target.length = n) :
    ∃ s : LinearSystem ℚ n, after 0 equations calls = .ok s ∧
      (∀ p, (s.solveFor target).1 = .ok p ↔
        Determines n (equations ++ pushed calls) target p) ∧
      ((∀ p, ¬ Determines n (equations ++ pushed calls) target p) →
        (∃ obstacle, (s.solveFor target).1 = .error (.refused obstacle)) ∧
        (solveSystem s target).result = .error (.refused .underdetermined)) := by
  obtain ⟨s, hs, h⟩ := represents_after hfit
  exact ⟨s, hs, h.solveFor_eq_ok_iff htarget, fun hnot =>
    ⟨h.exists_obstacle htarget hnot, h.result_solveSystem_eq_error htarget hnot⟩⟩

theorem solveFor_after_eq_ok_iff_two_cells :
    ∃ s : LinearSystem ℚ 2,
      after 0 [(.ofBools [false, true], 1 / 4)] [.solveFor (.ofBools [true, true]), .reduce,
        .push (.ofBools [true, true]) 1] = .ok s ∧
      (s.solveFor (.ofBools [true, false])).1 = .ok (3 / 4) := by
  have hfit : Fit 2 ([(Bits.ofBools [false, true], (1 / 4 : ℚ))] ++
      pushed [.solveFor (.ofBools [true, true]), .reduce, .push (.ofBools [true, true]) 1]) := by
    simp [Fit, pushed, Bits.ofBools]
  obtain ⟨s, hs, hiff, -⟩ :=
    solveFor_after_eq_ok_iff hfit (show (Bits.ofBools [true, false]).length = 2 from rfl)
  have hweight (b c : Bool) (x : Fin 2 → ℚ) : (Bits.ofBools [b, c]).weight x =
      (if b then x 0 else 0) + if c then x 1 else 0 := by
    simp [Bits.weight, Fin.sum_univ_two, Bits.contains_ofBools]
  have hsolves (x : Fin 2 → ℚ) : Solves ([(Bits.ofBools [false, true], 1 / 4)] ++
      pushed [.solveFor (.ofBools [true, true]), .reduce, .push (.ofBools [true, true]) 1]) x ↔
      x 0 + x 1 = 1 ∧ x 1 = 1 / 4 := by
    simp +contextual [Solves, pushed, hweight, Fin.sum_univ_two]
  refine ⟨s, hs, (hiff (3 / 4)).mpr ⟨⟨![3 / 4, 1 / 4], ?_⟩, fun x hx => ?_⟩⟩
  · rw [hsolves]
    norm_num
  · rw [hsolves] at hx
    simp only [hweight]
    norm_num
    linarith [hx.1, hx.2]

end LinearSystem
end Credence
