import Mathlib
import Credence.LinearSystem.Solve
import Credence.Proofs.LinearSystem.Canonical

/-!
# Histories of a system

A system is given some equations, and then equations are pushed, rows are reduced and expressions
solved for in any order. Over exact numbers and without tolerance only the equations leave a trace:
the rows span what the equations span, one row per equation and one for the whole, and known pivots
belong to rows that another reduction would not change. As reduced echelon form is canonical, the
order of the calls does not show after a reduction.
-/

namespace Credence

namespace LinearSystem

/-! ## 1. Calls -/

/-- What a system can be asked for. -/
inductive Call (α : Type) where
  | push (coefficients : Bits) (constant : α)
  | reduce
  | solveFor (target : Bits)

/-- The equations that calls add, in order. -/
def pushed {α : Type} : List (Call α) → List (Bits × α)
  | [] => []
  | .push coefficients constant :: calls => (coefficients, constant) :: pushed calls
  | .reduce :: calls => pushed calls
  | .solveFor _ :: calls => pushed calls

theorem pushed_map_push {α : Type} (equations : List (Bits × α)) :
    pushed (equations.map fun e => .push e.1 e.2) = equations := by
  induction equations with
  | nil => rfl
  | cons e equations ih => rw [List.map_cons, pushed, ih]

theorem pushed_cons {α : Type} (call : Call α) (calls : List (Call α)) :
    pushed (call :: calls) = pushed [call] ++ pushed calls := by
  cases call <;> rfl

/-- The equations have one coefficient per cell. -/
def Fit {α : Type} (n : ℕ) (equations : List (Bits × α)) : Prop :=
  ∀ e ∈ equations, e.1.length = n

section Calls

variable {α : Type} [Scalar α] {n : ℕ}

/-- The system that a call leaves. -/
def apply (s : LinearSystem α n) : Call α → Except Fault (LinearSystem α n)
  | .push coefficients constant => s.push coefficients constant
  | .reduce => .ok s.reduce
  | .solveFor target => .ok (s.solveFor target).2

/-- The system that is given equations, after a row of calls. -/
def after (tolerance : α) (equations : List (Bits × α)) (calls : List (Call α)) :
    Except Fault (LinearSystem α n) := do
  calls.foldlM apply (← ofEquations tolerance equations)

theorem push_eq_ok {s : LinearSystem α n} {coefficients : Bits} (h : coefficients.length = n)
    (constant : α) :
    s.push coefficients constant =
      .ok { s with rows := s.rows ++ [Row.ofBits coefficients constant], pivots := none } :=
  if_pos h

/-- A relation between the equations so far and the system that has been given them: it holds of a
new system, and what a system is asked for does not break it. -/
structure Invariant (t : α) (P : List (Bits × α) → LinearSystem α n → Prop) : Prop where
  new : ∃ s, LinearSystem.new t = .ok s ∧ P [] s
  push : ∀ {equations s}, P equations s → ∀ {coefficients : Bits}, coefficients.length = n →
    ∀ constant, ∃ s', s.push coefficients constant = .ok s' ∧
      P (equations ++ [(coefficients, constant)]) s'
  reduce : ∀ {equations s}, P equations s → P equations s.reduce

section Invariant

variable {t : α} {P : List (Bits × α) → LinearSystem α n → Prop} (h : Invariant t P)

include h

theorem Invariant.solveFor {equations : List (Bits × α)} {s : LinearSystem α n}
    (hs : P equations s) (target : Bits) : P equations (s.solveFor target).2 := by
  unfold LinearSystem.solveFor
  split
  next =>
    show P equations s.ensureReduced
    unfold ensureReduced
    split
    next => exact hs
    next => exact h.reduce hs
  next => exact hs

theorem Invariant.apply {equations : List (Bits × α)} {s : LinearSystem α n} (hs : P equations s)
    (call : Call α) (hfit : Fit n (pushed [call])) :
    ∃ s', s.apply call = .ok s' ∧ P (equations ++ pushed [call]) s' := by
  cases call with
  | push coefficients constant => exact h.push hs (hfit _ List.mem_cons_self) constant
  | reduce =>
    rw [pushed, pushed, List.append_nil]
    exact ⟨_, rfl, h.reduce hs⟩
  | solveFor target =>
    rw [pushed, pushed, List.append_nil]
    exact ⟨_, rfl, h.solveFor hs target⟩

theorem Invariant.foldlM_apply {equations : List (Bits × α)} {s : LinearSystem α n}
    (hs : P equations s) (calls : List (Call α)) (hfit : Fit n (pushed calls)) :
    ∃ s', calls.foldlM LinearSystem.apply s = .ok s' ∧ P (equations ++ pushed calls) s' := by
  induction calls generalizing equations s with
  | nil =>
    rw [pushed, List.append_nil]
    exact ⟨s, rfl, hs⟩
  | cons call calls ih =>
    rw [pushed_cons] at hfit ⊢
    obtain ⟨s₁, hs₁, h₁⟩ := h.apply hs call fun e he => hfit e (List.mem_append_left _ he)
    obtain ⟨s₂, hs₂, h₂⟩ := ih h₁ fun e he => hfit e (List.mem_append_right _ he)
    rw [List.append_assoc] at h₂
    refine ⟨s₂, ?_, h₂⟩
    rw [List.foldlM_cons, hs₁]
    exact hs₂

theorem Invariant.ofEquations {equations : List (Bits × α)} (hfit : Fit n equations) :
    ∃ s : LinearSystem α n, LinearSystem.ofEquations t equations = .ok s ∧ P equations s := by
  obtain ⟨s₀, hnew, h₀⟩ := h.new
  have hpush := h.foldlM_apply h₀ (equations.map fun e => .push e.1 e.2)
  rw [pushed_map_push, List.foldlM_map, List.nil_append] at hpush
  obtain ⟨s, hs, hP⟩ := hpush hfit
  refine ⟨s, ?_, hP⟩
  rw [LinearSystem.ofEquations, hnew]
  exact hs

/-- Calls that fit never fail, and keep the invariant. -/
theorem Invariant.after {equations : List (Bits × α)} {calls : List (Call α)}
    (hfit : Fit n (equations ++ pushed calls)) :
    ∃ s : LinearSystem α n, LinearSystem.after t equations calls = .ok s ∧
      P (equations ++ pushed calls) s := by
  obtain ⟨s₁, hs₁, h₁⟩ :=
    h.ofEquations fun e he => hfit e (List.mem_append_left (pushed calls) he)
  obtain ⟨s₂, hs₂, h₂⟩ := h.foldlM_apply h₁ calls fun e he => hfit e (List.mem_append_right _ he)
  refine ⟨s₂, ?_, h₂⟩
  rw [LinearSystem.after, hs₁]
  exact hs₂

end Invariant

end Calls

/-! ## 2. What the rows stand for -/

variable {n : ℕ}

/-- The rows of equations, after the row that says that all cells together have probability one. -/
def rowsOf (n : ℕ) (equations : List (Bits × ℚ)) : List (Row ℚ n) :=
  Vector.replicate (n + 1) 1 :: equations.map fun e => Row.ofBits e.1 e.2

theorem rowsOf_append (equations : List (Bits × ℚ)) (coefficients : Bits) (constant : ℚ) :
    rowsOf n (equations ++ [(coefficients, constant)]) =
      rowsOf n equations ++ [Row.ofBits coefficients constant] := by
  simp [rowsOf]

/-- At its tolerance the system is worth as much as the equations. -/
structure Stands (t : ℚ) (equations : List (Bits × ℚ)) (s : LinearSystem ℚ n) : Prop where
  tolerance : s.tolerance = t
  space : rowSpace s.rows = rowSpace (rowsOf n equations)

theorem Stands.push {t : ℚ} {equations : List (Bits × ℚ)} {s : LinearSystem ℚ n}
    (h : Stands t equations s) (coefficients : Bits) (constant : ℚ) :
    Stands t (equations ++ [(coefficients, constant)])
      { s with rows := s.rows ++ [Row.ofBits coefficients constant], pivots := none } where
  tolerance := h.tolerance
  space := by rw [rowsOf_append, rowSpace_append, rowSpace_append, h.space]

theorem Stands.reduce {t : ℚ} (ht : 0 ≤ t) {equations : List (Bits × ℚ)} {s : LinearSystem ℚ n}
    (h : Stands t equations s) : Stands t equations s.reduce where
  tolerance := h.tolerance
  space := by
    rw [← h.space]
    exact Sweep.rowSpace_run (by rwa [h.tolerance]) s.rows

/-- Without tolerance, a row for each equation and one for the whole; and if the pivots are known,
the rows are reduced already. -/
structure Represents (equations : List (Bits × ℚ)) (s : LinearSystem ℚ n) : Prop
    extends Stands 0 equations s where
  length : s.rows.length = equations.length + 1
  reduced : s.pivots.isSome = true → s.reduce = s

theorem represents_new : ∃ s : LinearSystem ℚ n, new 0 = .ok s ∧ Represents [] s :=
  ⟨_, if_pos le_rfl, ⟨rfl, rfl⟩, rfl, fun h => absurd h (by simp)⟩

theorem Represents.push {equations : List (Bits × ℚ)} {s : LinearSystem ℚ n}
    (h : Represents equations s) {coefficients : Bits} (hfit : coefficients.length = n)
    (constant : ℚ) :
    ∃ s', s.push coefficients constant = .ok s' ∧
      Represents (equations ++ [(coefficients, constant)]) s' := by
  refine ⟨_, push_eq_ok hfit constant, h.toStands.push coefficients constant, ?_,
    fun h => absurd h (by simp)⟩
  simp [h.length]

theorem reduce_reduce {s : LinearSystem ℚ n} (h : s.tolerance = 0) :
    s.reduce.reduce = s.reduce := by
  -- the swept rows span the same space, and there are as many of them
  have hrun : Sweep.run 0 (Sweep.run 0 s.rows).rows = Sweep.run 0 s.rows := by
    apply Sweep.run_eq_of_rowSpace_eq
    · exact Sweep.rowSpace_run le_rfl s.rows
    · exact Sweep.length_rows_run 0 s.rows
  simp only [LinearSystem.reduce, h, hrun]

theorem Represents.reduce {equations : List (Bits × ℚ)} {s : LinearSystem ℚ n}
    (h : Represents equations s) : Represents equations s.reduce where
  toStands := h.toStands.reduce le_rfl
  length := by
    rw [← h.length]
    exact Sweep.length_rows_run s.tolerance s.rows
  reduced := fun _ => reduce_reduce h.tolerance

theorem Represents.ensureReduced_eq {equations : List (Bits × ℚ)} {s : LinearSystem ℚ n}
    (h : Represents equations s) : s.ensureReduced = s.reduce := by
  rw [ensureReduced]
  split
  next hsome => exact (h.reduced hsome).symm
  next => rfl

theorem invariant_represents : Invariant (0 : ℚ) (Represents (n := n)) :=
  ⟨represents_new, Represents.push, Represents.reduce⟩

/-- Calls that fit leave a system that stands for all equations so far. -/
theorem represents_after {equations : List (Bits × ℚ)} {calls : List (Call ℚ)}
    (hfit : Fit n (equations ++ pushed calls)) :
    ∃ s : LinearSystem ℚ n, after 0 equations calls = .ok s ∧
      Represents (equations ++ pushed calls) s :=
  invariant_represents.after hfit

/-! ## 3. The order of calls -/

theorem rowSpace_rowsOf_perm {equations equations' : List (Bits × ℚ)}
    (h : equations.Perm equations') :
    rowSpace (rowsOf n equations) = rowSpace (rowsOf n equations') := by
  apply rowSpace_congr
  intro row
  exact ((h.map _).cons _).mem_iff

theorem Represents.reduce_eq_of_perm {equations equations' : List (Bits × ℚ)}
    {s s' : LinearSystem ℚ n} (h : Represents equations s) (h' : Represents equations' s')
    (hperm : equations.Perm equations') : s.reduce = s'.reduce := by
  have hrun : Sweep.run 0 s.rows = Sweep.run 0 s'.rows := by
    apply Sweep.run_eq_of_rowSpace_eq
    · rw [h.space, h'.space, rowSpace_rowsOf_perm hperm]
    · rw [h.length, h'.length, hperm.length_eq]
  simp only [LinearSystem.reduce, h.tolerance, h'.tolerance, hrun]

/-- Solving starts with a reduction, or with rows that another one would not change. -/
theorem Represents.solveFor_eq_of_perm {equations equations' : List (Bits × ℚ)}
    {s s' : LinearSystem ℚ n} (h : Represents equations s) (h' : Represents equations' s')
    (hperm : equations.Perm equations') (target : Bits) :
    (s.solveFor target).1 = (s'.solveFor target).1 := by
  unfold LinearSystem.solveFor
  by_cases hlength : target.length = n
  · rw [if_pos hlength, if_pos hlength, h.ensureReduced_eq, h'.ensureReduced_eq,
      h.reduce_eq_of_perm h' hperm]
  · rw [if_neg hlength, if_neg hlength]

/-- Histories with the same equations in any order lead to the same system once it is reduced, and
to the same answers. Another reduction changes nothing, and an equation pushed after a reduction is
as good as one pushed before it: the systems are the same once they are reduced, and until then they
answer the same. -/
theorem reduce_after_eq_of_perm {equations equations' : List (Bits × ℚ)}
    {calls calls' : List (Call ℚ)} (hfit : Fit n (equations ++ pushed calls))
    (hperm : (equations ++ pushed calls).Perm (equations' ++ pushed calls')) :
    ∃ s s' : LinearSystem ℚ n,
      after 0 equations calls = .ok s ∧ after 0 equations' calls' = .ok s' ∧
      s.reduce = s'.reduce ∧ (∀ target, (s.solveFor target).1 = (s'.solveFor target).1) ∧
      s.reduce.reduce = s.reduce ∧
      ∀ coefficients constant, coefficients.length = n →
        ∃ u u', s.push coefficients constant = .ok u ∧ s.reduce.push coefficients constant = .ok u' ∧
          u.reduce = u'.reduce ∧ ∀ target, (u.solveFor target).1 = (u'.solveFor target).1 := by
  have hfit' : Fit n (equations' ++ pushed calls') := fun e he => hfit e (hperm.mem_iff.mpr he)
  obtain ⟨s, hs, h⟩ := represents_after hfit
  obtain ⟨s', hs', h'⟩ := represents_after hfit'
  refine ⟨s, s', hs, hs', h.reduce_eq_of_perm h' hperm, h.solveFor_eq_of_perm h' hperm,
    reduce_reduce h.tolerance, ?_⟩
  -- the pushed system and the one reduced before stand for the same equations
  intro coefficients constant hlength
  obtain ⟨u, hu, hpush⟩ := h.push hlength constant
  obtain ⟨u', hu', hpush'⟩ := h.reduce.push hlength constant
  exact ⟨u, u', hu, hu', hpush.reduce_eq_of_perm hpush' (.refl _),
    hpush.solveFor_eq_of_perm hpush' (.refl _)⟩

/-- One of the equations says nothing new, so the last two cells stay open until another equation is
pushed. -/
theorem reduce_after_eq_of_perm_three_cells :
    ∃ s s' : LinearSystem ℚ 3,
      after 0 [(.ofBools [false, true, false], 1 / 4)]
        [.reduce, .push (.ofBools [true, true, true]) 1,
          .solveFor (.ofBools [true, false, false])] = .ok s ∧
      after 0 [(.ofBools [true, true, true], 1)]
        [.push (.ofBools [false, true, false]) (1 / 4)] = .ok s' ∧
      s.reduce = s'.reduce ∧
      s'.reduce.rows = [#v[1, 0, 1, 3 / 4], #v[0, 1, 0, 1 / 4], #v[0, 0, 0, 0]] ∧
      s'.reduce.pivots = some [0, 1] ∧
      (s.solveFor (.ofBools [true, false, false])).1 = .error (.refused (.noPivot 2)) ∧
      ∃ u u', s.push (.ofBools [false, false, true]) (1 / 2) = .ok u ∧
        s.reduce.push (.ofBools [false, false, true]) (1 / 2) = .ok u' ∧ u.reduce = u'.reduce ∧
        (u'.solveFor (.ofBools [true, false, false])).1 = .ok (1 / 4) := by
  have hfit : Fit 3 ([(Bits.ofBools [false, true, false], (1 / 4 : ℚ))] ++
      pushed [.reduce, .push (.ofBools [true, true, true]) 1,
        .solveFor (.ofBools [true, false, false])]) := by
    simp [Fit, pushed, Bits.ofBools]
  have hperm : ([(Bits.ofBools [false, true, false], (1 / 4 : ℚ))] ++
      pushed [.reduce, .push (.ofBools [true, true, true]) 1,
        .solveFor (.ofBools [true, false, false])]).Perm
      ([(Bits.ofBools [true, true, true], 1)] ++
        pushed [.push (.ofBools [false, true, false]) (1 / 4)]) :=
    .swap _ _ _
  obtain ⟨s, s', hs, hs', heq, hsolve, -, hpush⟩ := reduce_after_eq_of_perm hfit hperm
  obtain ⟨u, u', hu, hu', hreduce, hanswer⟩ :=
    hpush (.ofBools [false, false, true]) (1 / 2) rfl
  -- one history is calculated up to its end, the other one with the equation that is pushed
  have hrows : (after 0 [(Bits.ofBools [true, true, true], 1)]
      [.push (.ofBools [false, true, false]) (1 / 4)]).map
        (fun s : LinearSystem ℚ 3 => (s.reduce.rows, s.reduce.pivots,
          (s.solveFor (.ofBools [true, false, false])).1)) =
      .ok ([#v[1, 0, 1, 3 / 4], #v[0, 1, 0, 1 / 4], #v[0, 0, 0, 0]], some [0, 1],
        .error (.refused (.noPivot 2))) := by
    decide +kernel
  rw [hs', Except.map, Except.ok.injEq, Prod.mk.injEq, Prod.mk.injEq] at hrows
  obtain ⟨hrows, hpivots, hopen⟩ := hrows
  have hpushed : (after 0 [(Bits.ofBools [false, true, false], 1 / 4)]
      [.reduce, .push (.ofBools [true, true, true]) 1,
        .solveFor (.ofBools [true, false, false])] >>=
        fun s : LinearSystem ℚ 3 => s.push (.ofBools [false, false, true]) (1 / 2)).map
          (fun u => (u.solveFor (.ofBools [true, false, false])).1) = .ok (.ok (1 / 4)) := by
    decide +kernel
  simp only [hs, bind, Except.bind, hu, Except.map, Except.ok.injEq, hanswer] at hpushed
  exact ⟨s, s', hs, hs', heq, hrows, hpivots, (hsolve _).trans hopen, u, u', hu, hu', hreduce,
    hpushed⟩

end LinearSystem
end Credence
