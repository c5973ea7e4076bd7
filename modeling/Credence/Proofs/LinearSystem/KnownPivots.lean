import Mathlib
import Credence.Proofs.LinearSystem.Safety

/-!
# The pivots that a system knows

Whatever the arithmetic yields, a system has a row for each equation and one for the whole. Its
pivots are known from a reduction up to the next equation, and while they are, they are ascending
columns, each with a row of its own. Solving reduces a system whose pivots are not known, and leaves
any other as it is, whether there is an answer or not.
-/

namespace Credence

namespace LinearSystem

variable {α : Type} {n : ℕ}

/-! ## 1. The last reduction -/

/-- The vector of a call has one bit per cell. -/
def Call.Fits (n : ℕ) : Call α → Prop
  | .push coefficients _ => coefficients.length = n
  | .reduce => True
  | .solveFor target => target.length = n

/-- The call leaves reduced rows. -/
def Call.Reduces : Call α → Prop
  | .push _ _ => False
  | .reduce => True
  | .solveFor _ => True

/-- One of the calls reduces the rows, and no equation is pushed after it. -/
def Reduced (calls : List (Call α)) : Prop :=
  ∃ before call later, calls = before ++ call :: later ∧ call.Reduces ∧ pushed later = []

theorem not_reduced_nil : ¬ Reduced ([] : List (Call α)) := by
  rintro ⟨before, call, later, hcalls, -⟩
  exact List.append_ne_nil_of_right_ne_nil before (List.cons_ne_nil call later) hcalls.symm

theorem reduced_cons_iff (call : Call α) (calls : List (Call α)) :
    Reduced (call :: calls) ↔ Reduced calls ∨ call.Reduces ∧ pushed calls = [] := by
  constructor
  · rintro ⟨before, call', later, hcalls, hreduces, hlater⟩
    -- the reduction is the first call or one of the others
    cases before with
    | nil =>
      obtain ⟨rfl, rfl⟩ := List.cons.inj hcalls
      exact .inr ⟨hreduces, hlater⟩
    | cons first before =>
      obtain ⟨rfl, rfl⟩ := List.cons.inj hcalls
      exact .inl ⟨before, call', later, rfl, hreduces, hlater⟩
  · rintro (⟨before, call', later, rfl, hreduces, hlater⟩ | ⟨hreduces, hlater⟩)
    · exact ⟨call :: before, call', later, rfl, hreduces, hlater⟩
    · exact ⟨[], call, calls, rfl, hreduces, hlater⟩

theorem fit_pushed {calls : List (Call α)} (h : ∀ call ∈ calls, call.Fits n) :
    Fit n (pushed calls) := by
  induction calls with
  | nil => exact fun e he => absurd he List.not_mem_nil
  | cons call calls ih =>
    have hrest := ih fun call' hcall' => h call' (List.mem_cons_of_mem call hcall')
    cases call with
    | push coefficients constant =>
      rw [pushed]
      intro e he
      cases List.mem_cons.mp he with
      | inl heq =>
        rw [heq]
        exact h (.push coefficients constant) List.mem_cons_self
      | inr hmem => exact hrest e hmem
    | reduce => exact hrest
    | solveFor target => exact hrest

/-! ## 2. Known pivots -/

variable [Scalar α] {s s' : LinearSystem α n}

theorem snd_solveFor {target : Bits} (h : target.length = n) :
    (s.solveFor target).2 = if s.pivots.isSome then s else s.reduce := by
  unfold solveFor
  rw [if_pos h]
  rfl

theorem pivots_of_push {coefficients : Bits} {constant : α}
    (h : s.push coefficients constant = .ok s') : s'.pivots = none := by
  unfold push at h
  split at h
  next =>
    cases h
    rfl
  next => cases h

theorem isSome_pivots_of_apply {call : Call α} (hfits : call.Fits n) (h : s.apply call = .ok s') :
    s'.pivots.isSome = true ↔ call.Reduces := by
  cases call with
  | push coefficients constant =>
    rw [pivots_of_push h]
    exact ⟨fun hsome => absurd hsome Bool.false_ne_true, False.elim⟩
  | reduce =>
    cases h
    exact ⟨fun _ => trivial, fun _ => rfl⟩
  | solveFor target =>
    cases h
    refine ⟨fun _ => trivial, fun _ => ?_⟩
    rw [snd_solveFor hfits]
    split
    next hsome => exact hsome
    next => rfl

/-- After calls the pivots are known if one of them has reduced the rows, or if they were known
before, and nothing has been pushed since. -/
theorem isSome_pivots_of_foldlM_apply {calls : List (Call α)} (hfits : ∀ call ∈ calls, call.Fits n)
    (h : calls.foldlM apply s = .ok s') :
    s'.pivots.isSome = true ↔ Reduced calls ∨ pushed calls = [] ∧ s.pivots.isSome = true := by
  induction calls generalizing s with
  | nil =>
    cases h
    simp [not_reduced_nil, pushed]
  | cons call calls ih =>
    rw [List.foldlM_cons] at h
    obtain ⟨s₁, hstep, hlater⟩ := exists_ok_of_bind h
    have hrest := ih (fun call' hcall' => hfits call' (List.mem_cons_of_mem call hcall')) hlater
    rw [isSome_pivots_of_apply (hfits call List.mem_cons_self) hstep] at hrest
    rw [hrest, reduced_cons_iff]
    cases call with
    | push coefficients constant => simp [Call.Reduces, pushed]
    | reduce => simp +contextual [Call.Reduces, pushed]
    | solveFor target => simp +contextual [Call.Reduces, pushed]

theorem pivots_of_foldlM_push {equations : List (Bits × α)} (hs : s.pivots = none)
    (h : equations.foldlM (fun s e => s.push e.1 e.2) s = .ok s') : s'.pivots = none := by
  induction equations generalizing s with
  | nil =>
    cases h
    exact hs
  | cons e equations ih =>
    rw [List.foldlM_cons] at h
    obtain ⟨s₁, hpush, hlater⟩ := exists_ok_of_bind h
    exact ih (pivots_of_push hpush) hlater

theorem pivots_of_ofEquations {t : α} {equations : List (Bits × α)}
    (h : ofEquations t equations = .ok s) : s.pivots = none := by
  unfold ofEquations new at h
  split at h
  next => exact pivots_of_foldlM_push rfl h
  next => cases h

/-- The pivots are known exactly from a reduction up to the next equation. -/
theorem pivots_of_after {t : α} {equations : List (Bits × α)} {calls : List (Call α)}
    (hfits : ∀ call ∈ calls, call.Fits n) (h : after t equations calls = .ok s) :
    s.pivots = none ↔ ¬ Reduced calls := by
  obtain ⟨s₀, hstart, hlater⟩ := exists_ok_of_bind h
  have hknown := isSome_pivots_of_foldlM_apply hfits hlater
  rw [pivots_of_ofEquations hstart] at hknown
  rw [← Option.not_isSome_iff_eq_none, hknown]
  simp

/-! ## 3. The shape -/

/-- There is a row for each equation and one for the whole. Known pivots ascend, and each has a row
of its own. -/
structure Shaped (equations : List (Bits × α)) (s : LinearSystem α n) : Prop where
  length : s.rows.length = equations.length + 1
  ascending : ∀ pivots, s.pivots = some pivots → pivots.Pairwise (· < ·)
  backed : s.Backed

theorem Shaped.push {equations : List (Bits × α)} (h : Shaped equations s) {coefficients : Bits}
    (hfit : coefficients.length = n) (constant : α) :
    ∃ s', s.push coefficients constant = .ok s' ∧
      Shaped (equations ++ [(coefficients, constant)]) s' := by
  refine ⟨_, push_eq_ok hfit constant, ?_, fun _ h => absurd h (by simp), Nat.zero_le _⟩
  rw [List.length_append, List.length_append, h.length]
  rfl

theorem Shaped.reduce {equations : List (Bits × α)} (h : Shaped equations s) :
    Shaped equations s.reduce where
  length := (Sweep.length_rows_run s.tolerance s.rows).trans h.length
  ascending := by
    intro pivots hpivots
    rw [← Option.some.inj hpivots]
    exact Sweep.pairwise_pivots_run s.tolerance s.rows
  backed := backed_reduce s

theorem invariant_shaped {t : α} (ht : 0 ≤ t) : Invariant t (Shaped (α := α) (n := n)) where
  new := ⟨_, if_pos ht, rfl, fun _ h => absurd h (by simp), Nat.zero_le _⟩
  push := Shaped.push
  reduce := Shaped.reduce

/-- Over any arithmetic, and after any calls that fit: there is one row more than equations, and each
row has one entry more than there are cells. The pivots are known exactly from a reduction up to the
next equation; then they are ascending columns, not more of them than rows. Solving always comes to
an end, without an index out of range, and reduces the system if its pivots are not known. -/
theorem shape_after {t : α} (ht : 0 ≤ t) {equations : List (Bits × α)} {calls : List (Call α)}
    (hequations : Fit n equations) (hcalls : ∀ call ∈ calls, call.Fits n) :
    ∃ s : LinearSystem α n, after t equations calls = .ok s ∧
      s.rows.length = (equations ++ pushed calls).length + 1 ∧
      (∀ row ∈ s.rows, row.toList.length = n + 1) ∧
      (s.pivots = none ↔ ¬ Reduced calls) ∧
      (∀ pivots, s.pivots = some pivots → pivots.Pairwise (· < ·) ∧
        (∀ j ∈ pivots, j.val < n + 1) ∧ pivots.length ≤ s.rows.length) ∧
      ∀ target : Bits, target.length = n →
        ((∃ p, (s.solveFor target).1 = .ok p) ∨
          ∃ obstacle, (s.solveFor target).1 = .error (.refused obstacle)) ∧
        (s.solveFor target).2 = if s.pivots.isSome then s else s.reduce := by
  have hfit : Fit n (equations ++ pushed calls) := fun e he =>
    (List.mem_append.mp he).elim (hequations e) (fit_pushed hcalls e)
  obtain ⟨s, hs, h⟩ := (invariant_shaped ht).after hfit
  refine ⟨s, hs, h.length, fun row _ => row.length_toList, pivots_of_after hcalls hs,
    fun pivots hpivots => ⟨h.ascending pivots hpivots, fun j _ => j.isLt, ?_⟩,
    fun target htarget => ⟨(h.backed.faultless_solveFor htarget).cases, snd_solveFor htarget⟩⟩
  have hbacked : (s.pivots.getD []).length ≤ s.rows.length := h.backed
  rwa [hpivots] at hbacked

/-- Doubles with a probability that is none and an infinite one. -/
theorem shape_after_two_undefined :
    ∃ s : LinearSystem Float 2,
      after 0.5 [(.ofBools [false, true], 0 / 0)]
        [.reduce, .push (.ofBools [true, true]) (1 / 0), .solveFor (.ofBools [true, false])] =
          .ok s ∧
      s.rows.length = 3 ∧ s.pivots ≠ none ∧
      (s.solveFor (.ofBools [false, true])).2 = if s.pivots.isSome then s else s.reduce := by
  have hequations : Fit 2 [(Bits.ofBools [false, true], (0 / 0 : Float))] := by
    simp [Fit, Bits.ofBools]
  have hcalls : ∀ call ∈ [Call.reduce, .push (Bits.ofBools [true, true]) (1 / 0 : Float),
      .solveFor (Bits.ofBools [true, false])], call.Fits 2 := by
    simp [Call.Fits, Bits.ofBools]
  have ht : (0 : Float) ≤ 0.5 := by decide +kernel
  obtain ⟨s, hs, hrows, -, hpivots, -, hsolve⟩ := shape_after ht hequations hcalls
  refine ⟨s, hs, hrows, ?_, (hsolve _ rfl).2⟩
  -- nothing is pushed after the last call, which reduces
  rw [Ne, hpivots, not_not]
  exact ⟨[.reduce, .push (.ofBools [true, true]) (1 / 0)], .solveFor (.ofBools [true, false]), [],
    rfl, trivial, rfl⟩

end LinearSystem
end Credence
