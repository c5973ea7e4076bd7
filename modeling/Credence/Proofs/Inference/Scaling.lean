import Mathlib
import Credence.Proofs.Inference.Outcomes

/-!
# Scaled probabilities

No expression holds where no event occurs, so no equation but the one for the whole counts the empty
cell. When all known probabilities are multiplied by a factor, the probabilities of the cells can be
multiplied with them, and the empty cell makes up for the whole. So the answer is multiplied by the
same factor, and there is one exactly if there was one before.
-/

namespace Credence

/-! ## 1. Scaled equations -/

section Equations

variable {n : ℕ}

/-- The equations with all their constants multiplied by a factor. -/
def scaleConstants (c : ℚ) (equations : List (Bits × ℚ)) : List (Bits × ℚ) :=
  equations.map fun e => (e.1, c * e.2)

theorem scaleConstants_inv {c : ℚ} (hc : c ≠ 0) (equations : List (Bits × ℚ)) :
    scaleConstants c⁻¹ (scaleConstants c equations) = equations := by
  unfold scaleConstants
  rw [List.map_map]
  apply List.map_id''
  intro e
  rw [Function.comp_apply, inv_mul_cancel_left₀ hc]

/-- The probabilities of the cells multiplied by a factor. Cell `i` makes up for the whole. -/
def rescale (i : Fin n) (c : ℚ) (x : Fin n → ℚ) : Fin n → ℚ := c • x + Pi.single i (1 - c)

theorem sum_rescale (i : Fin n) (c : ℚ) {x : Fin n → ℚ} (hx : ∑ j, x j = 1) :
    ∑ j, rescale i c x j = 1 := by
  simp only [rescale, Pi.add_apply, Pi.smul_apply, smul_eq_mul, Finset.sum_add_distrib]
  rw [← Finset.mul_sum, hx, Finset.sum_pi_single', if_pos (Finset.mem_univ i)]
  ring

theorem Bits.weight_rescale {b : Bits} {i : Fin n} (hb : b.contains i = false) (c : ℚ)
    (x : Fin n → ℚ) : b.weight (rescale i c x) = c * b.weight x := by
  unfold weight
  rw [Finset.mul_sum]
  apply Finset.sum_congr rfl
  intro j _
  by_cases hj : b.contains j = true
  · -- the cell that makes up for the whole is not selected
    have hne : j ≠ i := by
      rintro rfl
      rw [hj] at hb
      exact absurd hb (by decide)
    rw [if_pos hj, if_pos hj, rescale, Pi.add_apply, Pi.single_eq_of_ne hne, add_zero,
      Pi.smul_apply, smul_eq_mul]
  · rw [if_neg hj, if_neg hj, mul_zero]

variable {equations : List (Bits × ℚ)} {i : Fin n}
  (hfree : ∀ e ∈ equations, e.1.contains i = false)

include hfree

theorem contains_of_mem_scaleConstants (c : ℚ) :
    ∀ e ∈ scaleConstants c equations, e.1.contains i = false :=
  List.forall_mem_map.mpr hfree

theorem Solves.rescale {x : Fin n → ℚ} (h : Solves equations x) (c : ℚ) :
    Solves (scaleConstants c equations) (rescale i c x) := by
  refine ⟨sum_rescale i c h.1, List.forall_mem_map.mpr fun e he => ?_⟩
  rw [Bits.weight_rescale (hfree e he), h.2 e he]

theorem Determines.scale {target : Bits} (htarget : target.contains i = false) {p c : ℚ}
    (hc : c ≠ 0) (h : Determines n equations target p) :
    Determines n (scaleConstants c equations) target (c * p) where
  solvable := by
    obtain ⟨x, hx⟩ := h.solvable
    exact ⟨_, hx.rescale hfree c⟩
  agree := by
    intro y hy
    -- scaled back, the solution is one of the equations as they were
    have hback := hy.rescale (contains_of_mem_scaleConstants hfree c) c⁻¹
    rw [scaleConstants_inv hc] at hback
    rw [← h.agree _ hback, Bits.weight_rescale htarget, mul_inv_cancel_left₀ hc]

theorem determines_scaleConstants_iff {target : Bits} (htarget : target.contains i = false)
    {c : ℚ} (hc : c ≠ 0) (p : ℚ) :
    Determines n (scaleConstants c equations) target (c * p) ↔
      Determines n equations target p := by
  refine ⟨fun h => ?_, fun h => h.scale hfree htarget hc⟩
  have hback := h.scale (contains_of_mem_scaleConstants hfree c) htarget (inv_ne_zero hc)
  rwa [scaleConstants_inv hc, inv_mul_cancel_left₀ hc] at hback

end Equations

/-! ## 2. Scaled probabilities -/

/-- No expression holds where no event occurs. -/
theorem contains_truthTable_zero (events : List String) (chain : Chain) :
    (truthTable events chain).contains 0 = false := by
  rw [(tabulates_truthTable events chain).contains_eq 0 (Nat.two_pow_pos _)]
  exact Chain.holds_eq_of_forall fun label _ => occursIn_zero events label

section Rows

variable {β : Type} {n : ℕ} {row : β → Bits} {probability : β → Option ℚ} {xs : List β} {x : β}
  (hunknown : xs.filter (fun y => (probability y).isNone) = [x])
  (hlength : ∀ y, (row y).length = n)

include hunknown hlength

/-- There is an answer or none, and none exactly if no probability is determined. -/
theorem solveEquations_map_cases :
    (∃ p, solveEquations n (xs.map row) (xs.map probability) 0 = .ok p ∧
      Determines n (xs.filterMap fun y => (probability y).map (row y, ·)) (row x) p) ∨
    (solveEquations n (xs.map row) (xs.map probability) 0 = .error (.refused .underdetermined) ∧
      ∀ p, ¬ Determines n (xs.filterMap fun y => (probability y).map (row y, ·)) (row x) p) := by
  obtain ⟨hok, herror⟩ := result_solveEquationsLogged_map hunknown hlength
  by_cases hdetermined :
      ∃ p, Determines n (xs.filterMap fun y => (probability y).map (row y, ·)) (row x) p
  · obtain ⟨p, hp⟩ := hdetermined
    exact .inl ⟨p, (hok p).mpr hp, hp⟩
  · have hnot := not_exists.mp hdetermined
    exact .inr ⟨herror hnot, hnot⟩

/-- Where no row counts the first cell, the answer is scaled with the probabilities. -/
theorem solveEquations_map_scale {i : Fin n} (hfree : ∀ y, (row y).contains i = false) {c : ℚ}
    (hc : c ≠ 0) :
    (∃ p, solveEquations n (xs.map row) (xs.map probability) 0 = .ok p ∧
      solveEquations n (xs.map row) (xs.map fun y => (probability y).map (c * ·)) 0 =
        .ok (c * p)) ∨
    (solveEquations n (xs.map row) (xs.map probability) 0 = .error (.refused .underdetermined) ∧
      solveEquations n (xs.map row) (xs.map fun y => (probability y).map (c * ·)) 0 =
        .error (.refused .underdetermined)) := by
  have hunknown' : xs.filter (fun y => ((probability y).map (c * ·)).isNone) = [x] := by
    simp only [Option.isNone_map, hunknown]
  have hscaled : (xs.filterMap fun y => ((probability y).map (c * ·)).map (row y, ·)) =
      scaleConstants c (xs.filterMap fun y => (probability y).map (row y, ·)) := by
    rw [scaleConstants, List.map_filterMap]
    simp only [Option.map_map]
    rfl
  have hequations : ∀ e ∈ xs.filterMap fun y => (probability y).map (row y, ·),
      e.1.contains i = false := by
    intro e he
    obtain ⟨y, -, hy⟩ := List.mem_filterMap.mp he
    obtain ⟨q, -, rfl⟩ := Option.map_eq_some_iff.mp hy
    exact hfree y
  have hiff := determines_scaleConstants_iff hequations (hfree x) hc
  have hcases := solveEquations_map_cases hunknown' hlength
  rw [hscaled] at hcases
  obtain ⟨p, hp, hdetermined⟩ | ⟨hunder, hnot⟩ := solveEquations_map_cases hunknown hlength
  · obtain ⟨q, hq, hdetermined'⟩ | ⟨-, hnot'⟩ := hcases
    · rw [hdetermined'.unique ((hiff p).mpr hdetermined)] at hq
      exact .inl ⟨p, hp, hq⟩
    · exact absurd ((hiff p).mpr hdetermined) (hnot' _)
  · obtain ⟨q, -, hdetermined'⟩ | ⟨hunder', -⟩ := hcases
    · have hq : c * (c⁻¹ * q) = q := mul_inv_cancel_left₀ hc q
      rw [← hq] at hdetermined'
      exact absurd ((hiff _).mp hdetermined') (hnot _)
    · exact .inr ⟨hunder, hunder'⟩

end Rows

/-- When all known probabilities are multiplied by a factor that is not zero, the answer is multiplied
by it, and if there was none, there is none, although all outcomes together still have probability
one. -/
theorem solveEquations_scale {events : List String} {space : SampleSpace}
    (hspace : SampleSpace.span events = .ok space) {stated : List (Expression × Option ℚ)}
    {target : Expression × Option ℚ} (hunknown : stated.filter (fun e => e.2.isNone) = [target])
    (hlabels : ∀ e ∈ stated, ∀ label ∈ e.1.chain.labels, label ∈ events) {c : ℚ} (hc : c ≠ 0) :
    ∃ maxima rows, Fill.maxima space.cells space.numEvents = .ok maxima ∧
      (stated.mapM fun e => (Inference.row space maxima e.1 : Inference.Step ℚ Bits)).result =
        .ok rows ∧
      ((∃ p, solveEquations space.numCells rows (stated.map (·.2)) 0 = .ok p) ∨
        solveEquations space.numCells rows (stated.map (·.2)) 0 =
          .error (.refused .underdetermined)) ∧
      (∀ p, solveEquations space.numCells rows (stated.map (·.2)) 0 = .ok p ↔
        solveEquations space.numCells rows (stated.map fun e => e.2.map (c * ·)) 0 =
          .ok (c * p)) ∧
      (solveEquations space.numCells rows (stated.map (·.2)) 0 =
          .error (.refused .underdetermined) ↔
        solveEquations space.numCells rows (stated.map fun e => e.2.map (c * ·)) 0 =
          .error (.refused .underdetermined)) := by
  have hspans := SampleSpace.span_eq_ok_iff.mp hspace
  have hlength (e : Expression × Option ℚ) :
      (truthTable events e.1.chain).length = 2 ^ events.length :=
    (tabulates_truthTable events e.1.chain).length_eq
  refine ⟨_, _, hspans.maxima_eq, Inference.result_mapM_row hspans hlabels ℚ, ?_⟩
  rw [hspans.numCells_eq]
  -- cell number zero is the one in which no event occurs
  obtain ⟨p, hp, hp'⟩ | ⟨hunder, hunder'⟩ := solveEquations_map_scale hunknown hlength
    (i := ⟨0, Nat.two_pow_pos _⟩) (fun e => contains_truthTable_zero events e.1.chain) hc
  · rw [hp, hp']
    refine ⟨.inl ⟨p, rfl⟩, fun q => ?_, by simp⟩
    rw [Except.ok.injEq, Except.ok.injEq, mul_right_inj' hc]
  · rw [hunder, hunder']
    simp

theorem solveEquations_scale_minus_two :
    let stated : List (Expression × Option ℚ) :=
      [(⟨.single (.event "A"), none⟩, some (1 / 2)),
        (⟨.join (.single (.event "A")) .and (.event "B"), none⟩, none),
        (⟨.single (.event "B"), none⟩, some (1 / 2)),
        (⟨.join (.single (.event "A")) .or (.event "B"), none⟩, some (3 / 4))]
    ∃ space maxima rows, SampleSpace.span ["A", "B"] = .ok space ∧
      Fill.maxima space.cells space.numEvents = .ok maxima ∧
      (stated.mapM fun e => (Inference.row space maxima e.1 : Inference.Step ℚ Bits)).result =
        .ok rows ∧
      solveEquations space.numCells rows (stated.map (·.2)) 0 = .ok (1 / 4) ∧
      solveEquations space.numCells rows [some (-1 : ℚ), none, some (-1), some (-3 / 2)] 0 =
        .ok (-1 / 2) := by
  intro stated
  have hevents : SampleSpace.Usable ["A", "B"] := ⟨by decide, by decide, by decide, by decide⟩
  obtain ⟨space, hspans⟩ := SampleSpace.exists_spans hevents (by decide)
  have hlabels : ∀ e ∈ stated, ∀ label ∈ e.1.chain.labels, label ∈ ["A", "B"] := by decide
  have hunknown : stated.filter (fun e => e.2.isNone) =
      [(⟨.join (.single (.event "A")) .and (.event "B"), none⟩, none)] := rfl
  obtain ⟨maxima, rows, hmaxima, hrows, -, hiff, -⟩ :=
    solveEquations_scale (SampleSpace.span_eq_ok_iff.mpr hspans) hunknown hlabels
      (show (-2 : ℚ) ≠ 0 by norm_num)
  have hbefore : solveEquations space.numCells rows (stated.map (·.2)) 0 = .ok (1 / 4) := by
    have hcapacities := hmaxima.symm.trans hspans.maxima_eq
    rw [Except.ok.injEq] at hcapacities
    have htables := hrows.symm.trans (hcapacities ▸ Inference.result_mapM_row hspans hlabels ℚ)
    rw [Except.ok.injEq] at htables
    rw [htables, hspans.numCells_eq]
    decide +kernel
  have hafter := (hiff (1 / 4)).mp hbefore
  have hscaled : (stated.map fun e => e.2.map ((-2 : ℚ) * ·)) =
      [some (-1), none, some (-1), some (-3 / 2)] := by norm_num [stated]
  rw [hscaled, show (-2 : ℚ) * (1 / 4) = -1 / 2 by norm_num] at hafter
  exact ⟨space, maxima, rows, SampleSpace.span_eq_ok_iff.mpr hspans, hmaxima, hrows, hbefore,
    hafter⟩

end Credence
