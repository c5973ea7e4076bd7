import Mathlib
import Credence.Inference.Equations
import Credence.Proofs.LinearSystem.Determined
import Credence.Proofs.LinearSystem.Safety

/-!
# Equations with one unknown

When one probability is missing, the others make up the system, and the row without one is the
target. Whatever the arithmetic yields, there is an answer or the target is underdetermined. Over
exact numbers the answer is the probability that the equations determine.
-/

namespace Credence

theorem Logged.result_bind_of_ok {ν ε α β : Type} {x : Logged ν ε α} {a : α}
    (h : x.result = .ok a) (f : α → Logged ν ε β) : (x >>= f).result = (f a).result := by
  rw [result_bind, h]
  rfl

theorem Logged.result_bind_of_error {ν ε α β : Type} {x : Logged ν ε α} {error : ε}
    (h : x.result = .error error) (f : α → Logged ν ε β) : (x >>= f).result = .error error := by
  rw [result_bind, h]
  rfl

/-! ## 1. The unknown -/

section Unknown

variable {α : Type}

/-- The indices of the probabilities that are not known. -/
def unknownIndices (probabilities : List (Option α)) : List ℕ :=
  (probabilities.zipIdx.filter (·.1.isNone)).map (·.2)

theorem mem_unknownIndices {probabilities : List (Option α)} {k : ℕ} :
    k ∈ unknownIndices probabilities ↔ probabilities[k]? = some none := by
  unfold unknownIndices
  rw [List.mem_map]
  constructor
  · rintro ⟨⟨probability, k'⟩, hmem, rfl⟩
    obtain ⟨hindex, hnone⟩ := List.mem_filter.mp hmem
    rw [List.mem_zipIdx_iff_getElem?] at hindex
    rw [hindex, Option.isNone_iff_eq_none.mp hnone]
  · intro h
    refine ⟨(none, k), List.mem_filter.mpr ⟨?_, rfl⟩, rfl⟩
    rw [List.mem_zipIdx_iff_getElem?]
    exact h

theorem pairwise_unknownIndices (probabilities : List (Option α)) :
    (unknownIndices probabilities).Pairwise (· < ·) := by
  have hsublist : (unknownIndices probabilities).Sublist (probabilities.zipIdx.map (·.2)) :=
    List.filter_sublist.map _
  rw [List.zipIdx_map_snd] at hsublist
  exact List.Pairwise.sublist hsublist List.pairwise_lt_range'

theorem length_unknownIndices (probabilities : List (Option α)) :
    (unknownIndices probabilities).length = (probabilities.filter Option.isNone).length := by
  have hfst : probabilities.filter Option.isNone =
      (probabilities.zipIdx.filter (·.1.isNone)).map (·.1) := by
    conv_lhs => rw [← List.zipIdx_map_fst 0 probabilities, List.filter_map]
    rfl
  unfold unknownIndices
  rw [List.length_map, hfst, List.length_map]

theorem findUnknown_eq_ok {probabilities : List (Option α)} {index : ℕ}
    (h : unknownIndices probabilities = [index]) : findUnknown probabilities = .ok index := by
  unfold unknownIndices at h
  rw [findUnknown, h]

/-- There is one unknown probability, or there is none, or the first two are named. -/
theorem findUnknown_cases (probabilities : List (Option α)) :
    (∃ index, findUnknown probabilities = .ok index ∧
      ∀ k : ℕ, probabilities[k]? = some none ↔ k = index) ∨
    (findUnknown probabilities = .error .missingUnknown ∧
      ∀ k : ℕ, probabilities[k]? ≠ some none) ∨
    ∃ first second : ℕ, findUnknown probabilities = .error (.multipleUnknowns first second) ∧
      first < second ∧
      ∀ k ≤ second, probabilities[k]? = some none ↔ k = first ∨ k = second := by
  have hpairwise := pairwise_unknownIndices probabilities
  cases hindices : unknownIndices probabilities with
  | nil =>
    refine .inr (.inl ⟨?_, fun k hk => ?_⟩)
    · unfold unknownIndices at hindices
      rw [findUnknown, hindices]
    · rw [← mem_unknownIndices, hindices] at hk
      exact List.not_mem_nil hk
  | cons first later =>
    cases later with
    | nil =>
      refine .inl ⟨first, findUnknown_eq_ok hindices, fun k => ?_⟩
      rw [← mem_unknownIndices, hindices, List.mem_singleton]
    | cons second later =>
      rw [hindices, List.pairwise_cons, List.pairwise_cons] at hpairwise
      obtain ⟨hfirst, hsecond, -⟩ := hpairwise
      refine .inr (.inr ⟨first, second, ?_, hfirst second List.mem_cons_self, fun k hk => ?_⟩)
      · unfold unknownIndices at hindices
        rw [findUnknown, hindices]
      · rw [← mem_unknownIndices, hindices, List.mem_cons, List.mem_cons]
        have hlater : k ∉ later := fun hmem => absurd (hsecond k hmem) (Nat.not_lt.mpr hk)
        rw [or_iff_left hlater]

theorem findUnknown_eq_missingUnknown {probabilities : List (Option α)}
    (h : ∀ k : ℕ, probabilities[k]? ≠ some none) :
    findUnknown probabilities = .error .missingUnknown := by
  obtain ⟨index, -, hall⟩ | ⟨hfind, -⟩ | ⟨first, second, -, -, hall⟩ :=
    findUnknown_cases probabilities
  · exact absurd ((hall index).mpr rfl) (h index)
  · exact hfind
  · exact absurd ((hall second le_rfl).mpr (.inr rfl)) (h second)

theorem findUnknown_eq_multipleUnknowns {probabilities : List (Option α)} {first second : ℕ}
    (hlt : first < second)
    (h : ∀ k ≤ second, probabilities[k]? = some none ↔ k = first ∨ k = second) :
    findUnknown probabilities = .error (.multipleUnknowns first second) := by
  have hfirst := (h first hlt.le).mpr (.inl rfl)
  have hsecond := (h second le_rfl).mpr (.inr rfl)
  obtain ⟨index, -, hall⟩ | ⟨-, hnone⟩ | ⟨first', second', hfind, hlt', hall⟩ :=
    findUnknown_cases probabilities
  · have hsame := ((hall first).mp hfirst).trans ((hall second).mp hsecond).symm
    exact absurd hsame hlt.ne
  · exact absurd hfirst (hnone first)
  · have hfirst' := (hall first' hlt'.le).mpr (.inl rfl)
    have hsecond' := (hall second' le_rfl).mpr (.inr rfl)
    -- the pair that reaches less far lies within the other one
    have heq : first' = first ∧ second' = second := by
      by_cases hle : second ≤ second'
      · have h₁ := (hall first (by omega)).mp hfirst
        have h₂ := (hall second hle).mp hsecond
        omega
      · have h₁ := (h first' (by omega)).mp hfirst'
        have h₂ := (h second' (by omega)).mp hsecond'
        omega
    rw [hfind, heq.1, heq.2]

/-- The only unknown probability of a list is found. -/
theorem exists_findUnknown {β : Type} {probability : β → Option α} {xs : List β} {x : β}
    (h : xs.filter (fun y => (probability y).isNone) = [x]) :
    ∃ k, findUnknown (xs.map probability) = .ok k ∧ xs[k]? = some x := by
  have hlength : (unknownIndices (xs.map probability)).length = 1 := by
    rw [length_unknownIndices, List.filter_map, List.length_map]
    show (xs.filter fun y => (probability y).isNone).length = 1
    rw [h]
    rfl
  obtain ⟨k, hk⟩ := List.length_eq_one_iff.mp hlength
  refine ⟨k, findUnknown_eq_ok hk, ?_⟩
  have hnone : (xs.map probability)[k]? = some none := by
    rw [← mem_unknownIndices, hk]
    exact List.mem_singleton_self k
  rw [List.getElem?_map, Option.map_eq_some_iff] at hnone
  obtain ⟨y, hy, hunknown⟩ := hnone
  have hmem : y ∈ xs.filter fun y => (probability y).isNone := by
    rw [List.mem_filter, hunknown]
    exact ⟨List.mem_of_getElem? hy, rfl⟩
  rw [h, List.mem_singleton] at hmem
  rw [hy, hmem]

theorem knownEquations_map {β : Type} (row : β → Bits) (probability : β → Option α)
    (xs : List β) :
    knownEquations (xs.map row) (xs.map probability) =
      xs.filterMap fun x => (probability x).map (row x, ·) := by
  rw [knownEquations, List.zip_map', List.filterMap_map]
  rfl

end Unknown

/-! ## 2. The system -/

section System

variable {α : Type} [Scalar α] {t : α} (ht : 0 ≤ t) {n : ℕ} {rows : List Bits}
  {probabilities : List (Option α)} (hlen : rows.length = probabilities.length) {unknown : ℕ}
  (hunknown : findUnknown probabilities = .ok unknown) {target : Bits}
  (htarget : rows[unknown]? = some target)
  (hfit : LinearSystem.Fit n (knownEquations rows probabilities))

include ht hlen hunknown htarget hfit

theorem result_solveEquationsLogged {P : List (Bits × α) → LinearSystem α n → Prop}
    (hP : LinearSystem.Invariant t P) :
    ∃ s : LinearSystem α n, P (knownEquations rows probabilities) s ∧
      (solveEquationsLogged n rows probabilities t).result = (solveSystem s target).result := by
  obtain ⟨s, hs, h⟩ := hP.ofEquations hfit
  refine ⟨s, h, ?_⟩
  have htolerance : (Logged.silent (liftRefusal id (checkTolerance t)) :
      Logged (Note α) (Failure (SystemError α)) α).result = .ok t := by
    rw [Logged.result_silent, checkTolerance, if_pos ht]
    rfl
  have hsought : (Logged.silent (liftRefusal id (findUnknown probabilities)) :
      Logged (Note α) (Failure (SystemError α)) ℕ).result = .ok unknown := by
    rw [Logged.result_silent, hunknown]
    rfl
  have hsystem : (Logged.silent (liftFault
      (LinearSystem.ofEquations t (knownEquations rows probabilities))) :
      Logged (Note α) (Failure (SystemError α)) (LinearSystem α n)).result = .ok s := by
    rw [Logged.result_silent, hs]
    rfl
  -- neither check refuses, and the system takes all equations
  rw [solveEquationsLogged, if_neg (by simpa using hlen), Logged.result_bind_of_ok htolerance,
    Logged.result_bind_of_ok hsought, Logged.result_bind_of_ok hsystem]
  simp only [htarget]

/-- Whatever keeps the target from having an answer, it is underdetermined. -/
theorem result_solveEquationsLogged_cases (hlength : target.length = n) :
    (∃ p, (solveEquationsLogged n rows probabilities t).result = .ok p) ∨
    (solveEquationsLogged n rows probabilities t).result =
      .error (.refused .underdetermined) := by
  obtain ⟨s, hs, hresult⟩ := result_solveEquationsLogged ht hlen hunknown htarget hfit
    (LinearSystem.invariant_backed ht)
  rw [hresult, LinearSystem.result_solveSystem]
  obtain ⟨p, hp⟩ | ⟨obstacle, hobstacle⟩ := (hs.faultless_solveFor hlength).cases
  · rw [hp]
    exact .inl ⟨p, rfl⟩
  · rw [hobstacle]
    exact .inr rfl

end System

/-! ## 3. The answer -/

section Answer

variable {n : ℕ} {rows : List Bits} {probabilities : List (Option ℚ)}
  (hlen : rows.length = probabilities.length) {unknown : ℕ}
  (hunknown : findUnknown probabilities = .ok unknown) {target : Bits}
  (htarget : rows[unknown]? = some target)
  (hfit : LinearSystem.Fit n (knownEquations rows probabilities))

include hlen hunknown htarget hfit

theorem result_solveEquationsLogged_eq_ok_iff (hlength : target.length = n) (p : ℚ) :
    (solveEquationsLogged n rows probabilities 0).result = .ok p ↔
      Determines n (knownEquations rows probabilities) target p := by
  obtain ⟨s, h, hresult⟩ := result_solveEquationsLogged le_rfl hlen hunknown htarget hfit
    LinearSystem.invariant_represents
  rw [hresult]
  exact h.result_solveSystem_eq_ok_iff hlength p

theorem result_solveEquationsLogged_eq_error (hlength : target.length = n)
    (hnot : ∀ p, ¬ Determines n (knownEquations rows probabilities) target p) :
    (solveEquationsLogged n rows probabilities 0).result =
      .error (.refused .underdetermined) := by
  obtain ⟨s, h, hresult⟩ := result_solveEquationsLogged le_rfl hlen hunknown htarget hfit
    LinearSystem.invariant_represents
  rw [hresult]
  exact h.result_solveSystem_eq_error hlength hnot

end Answer

theorem fit_knownEquations_map {α β : Type} {n : ℕ} {row : β → Bits}
    (hlength : ∀ y, (row y).length = n) (probability : β → Option α) (xs : List β) :
    LinearSystem.Fit n (knownEquations (xs.map row) (xs.map probability)) := by
  intro equation hequation
  rw [knownEquations_map, List.mem_filterMap] at hequation
  obtain ⟨y, -, hy⟩ := hequation
  obtain ⟨q, -, rfl⟩ := Option.map_eq_some_iff.mp hy
  exact hlength y

/-- The answer for a list of which one member has no probability. -/
theorem result_solveEquationsLogged_map {n : ℕ} {β : Type} {row : β → Bits}
    {probability : β → Option ℚ} {xs : List β} {x : β}
    (hunknown : xs.filter (fun y => (probability y).isNone) = [x])
    (hlength : ∀ y, (row y).length = n) :
    (∀ p, (solveEquationsLogged n (xs.map row) (xs.map probability) 0).result = .ok p ↔
      Determines n (xs.filterMap fun y => (probability y).map (row y, ·)) (row x) p) ∧
    ((∀ p, ¬ Determines n (xs.filterMap fun y => (probability y).map (row y, ·)) (row x) p) →
      (solveEquationsLogged n (xs.map row) (xs.map probability) 0).result =
        .error (.refused .underdetermined)) := by
  obtain ⟨k, hfind, hat⟩ := exists_findUnknown hunknown
  have hsame : (xs.map row).length = (xs.map probability).length := by
    rw [List.length_map, List.length_map]
  have htarget : (xs.map row)[k]? = some (row x) := by
    rw [List.getElem?_map, hat]
    rfl
  have hfit := fit_knownEquations_map hlength probability xs
  rw [← knownEquations_map]
  exact ⟨result_solveEquationsLogged_eq_ok_iff hsame hfind htarget hfit (hlength x),
    result_solveEquationsLogged_eq_error hsame hfind htarget hfit (hlength x)⟩

end Credence
