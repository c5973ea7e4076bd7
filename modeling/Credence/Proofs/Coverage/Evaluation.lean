import Mathlib
import Credence.Proofs.Coverage

/-!
# Evaluation from left to right

A chain has a coverage when all its labels are declared, and the coverage tells for each cell whether
the chain is true when just the events of the cell occur. The labels are met in the order in which
they stand in the chain, so of those that are not declared the first one is refused.
-/

namespace Credence

open SampleSpace (Spans)

/-! ## 1. The label that is refused -/

/-- The first of the labels that is not declared. -/
def firstUndeclared (events labels : List String) : Option String := labels.find? (· ∉ events)

theorem firstUndeclared_eq_none_iff {events labels : List String} :
    firstUndeclared events labels = none ↔ ∀ label ∈ labels, label ∈ events := by
  simp [firstUndeclared]

theorem firstUndeclared_append (events labels labels' : List String) :
    firstUndeclared events (labels ++ labels') =
      (firstUndeclared events labels).or (firstUndeclared events labels') :=
  List.find?_append

theorem firstUndeclared_eq_some {events labels : List String} {undeclared : String}
    (h : firstUndeclared events labels = some undeclared) :
    undeclared ∈ labels ∧ undeclared ∉ events :=
  ⟨List.mem_of_find?_eq_some h, by simpa using List.find?_some h⟩

section Spanned

variable {events : List String} {space : SampleSpace} {undeclared : String}

mutual
theorem Operand.coverage_of_undeclared (h : Spans events space) : (operand : Operand) →
    firstUndeclared events operand.labels = some undeclared →
    operand.coverage space = .error (.refused ⟨undeclared⟩)
  | .event label, hfirst => by
    obtain ⟨hmem, hnot⟩ := firstUndeclared_eq_some hfirst
    obtain rfl : undeclared = label := List.mem_singleton.mp hmem
    exact h.indicator_of_notMem hnot
  | .group chain, hfirst => chain.coverage_of_undeclared h hfirst
theorem Chain.coverage_of_undeclared (h : Spans events space) : (chain : Chain) →
    firstUndeclared events chain.labels = some undeclared →
    chain.coverage space = .error (.refused ⟨undeclared⟩)
  | .single operand, hfirst => by
    rw [Chain.coverage, operand.coverage_of_undeclared h hfirst]
    rfl
  | .join chain connective operand, hfirst => by
    rw [Chain.labels, firstUndeclared_append] at hfirst
    cases hchain : firstUndeclared events chain.labels with
    | some label =>
      rw [hchain, Option.some_or] at hfirst
      rw [Chain.coverage, chain.coverage_of_undeclared h (hchain.trans hfirst)]
      rfl
    -- the last operand is only met when all labels before it are declared
    | none =>
      rw [hchain, Option.none_or] at hfirst
      obtain ⟨before, hbefore, -⟩ := chain.coverage_spec h (firstUndeclared_eq_none_iff.mp hchain)
      rw [Chain.coverage, hbefore, operand.coverage_of_undeclared h hfirst]
      rfl
end

/-! ## 2. The outcome -/

/-- The events of cell number `m`, and no others, occur. -/
def OccurIn (events : List String) (m : ℕ) (occurs : String → Bool) : Prop :=
  ∀ (k : ℕ) (label : String), events[k]? = some label → occurs label = m.testBit k

theorem occurIn_occursIn {events : List String} (h : events.Nodup) (m : ℕ) :
    OccurIn events m (occursIn events m) := by
  intro k label hlabel
  obtain ⟨hk, rfl⟩ := List.getElem?_eq_some_iff.mp hlabel
  rw [occursIn, h.idxOf_getElem k hk]

theorem OccurIn.eq_occursIn {m : ℕ} {occurs : String → Bool} (h : OccurIn events m occurs)
    {label : String} (hlabel : label ∈ events) : occurs label = occursIn events m label :=
  h _ label (List.getElem?_idxOf hlabel)

/-- A chain has a coverage exactly if its labels are declared, and then a cell is selected when the
chain, read from left to right, is true of its events. Otherwise the first label that is not declared
is refused. -/
theorem Chain.coverage_eq_ok_iff (hspace : SampleSpace.span events = .ok space) (chain : Chain) :
    ((∃ coverage, chain.coverage space = .ok coverage) ↔
      ∀ label ∈ chain.labels, label ∈ events) ∧
    (∀ coverage, chain.coverage space = .ok coverage →
      coverage.length = space.numCells ∧
      ∀ m < space.numCells, ∀ occurs, OccurIn events m occurs →
        coverage.contains m = chain.holds occurs) ∧
    ((¬ ∀ label ∈ chain.labels, label ∈ events) →
      ∃ label, firstUndeclared events chain.labels = some label ∧
        chain.coverage space = .error (.refused ⟨label⟩)) := by
  have h := SampleSpace.span_eq_ok_iff.mp hspace
  cases hfirst : firstUndeclared events chain.labels with
  | none =>
    have hlabels := firstUndeclared_eq_none_iff.mp hfirst
    obtain ⟨coverage, hcoverage, htable⟩ := chain.coverage_spec h hlabels
    refine ⟨⟨fun _ => hlabels, fun _ => ⟨coverage, hcoverage⟩⟩, ?_, fun hnot => absurd hlabels hnot⟩
    intro coverage' hcoverage'
    obtain rfl : coverage = coverage' := Except.ok.inj (hcoverage.symm.trans hcoverage')
    rw [h.numCells_eq]
    refine ⟨htable.length_eq, fun m hm occurs hoccurs => ?_⟩
    rw [htable.contains_eq m hm]
    exact chain.holds_congr fun label hlabel => (hoccurs.eq_occursIn (hlabels label hlabel)).symm
  | some undeclared =>
    have hrefused := chain.coverage_of_undeclared h hfirst
    have hnot : ¬ ∃ coverage, chain.coverage space = .ok coverage := by
      rintro ⟨coverage, hcoverage⟩
      rw [hrefused] at hcoverage
      cases hcoverage
    have hlabels : ¬ ∀ label ∈ chain.labels, label ∈ events := by
      rw [← firstUndeclared_eq_none_iff, hfirst]
      exact Option.some_ne_none undeclared
    exact ⟨iff_of_false hnot hlabels, fun coverage hcoverage => absurd ⟨coverage, hcoverage⟩ hnot,
      fun _ => ⟨undeclared, rfl, hrefused⟩⟩

/-- `A or B and C` is not true when only `A` occurs. -/
theorem Chain.coverage_eq_ok_iff_three_events :
    ∃ space, SampleSpace.span ["A", "B", "C"] = .ok space ∧
      (∃ coverage, Chain.coverage space
          (.join (.join (.single (.event "A")) .or (.event "B")) .and (.event "C")) =
            .ok coverage ∧
        coverage.length = 8 ∧ coverage.contains 1 = false ∧ coverage.contains 5 = true) ∧
      Chain.coverage space (.join (.single (.group (.single (.event "Z")))) .or (.event "Y")) =
        .error (.refused ⟨"Z"⟩) := by
  obtain ⟨space, h⟩ := SampleSpace.exists_spans
    (show SampleSpace.Usable ["A", "B", "C"] from ⟨by decide, by decide, by decide, by decide⟩)
    (by decide)
  have hspan := SampleSpace.span_eq_ok_iff.mpr h
  have hcells : space.numCells = 8 := h.numCells_eq
  refine ⟨space, hspan, ?_, ?_⟩
  · obtain ⟨hok, hread, -⟩ := Chain.coverage_eq_ok_iff hspan
      (.join (.join (.single (.event "A")) .or (.event "B")) .and (.event "C"))
    obtain ⟨coverage, hcoverage⟩ := hok.mpr (by decide)
    obtain ⟨hlength, hbit⟩ := hread coverage hcoverage
    rw [hcells] at hlength hbit
    have hoccur := occurIn_occursIn (show ["A", "B", "C"].Nodup by decide)
    refine ⟨coverage, hcoverage, hlength, ?_, ?_⟩
    · exact (hbit 1 (by decide) _ (hoccur 1)).trans (by decide)
    · exact (hbit 5 (by decide) _ (hoccur 5)).trans (by decide)
  · obtain ⟨-, -, hrefused⟩ := Chain.coverage_eq_ok_iff hspan
      (.join (.single (.group (.single (.event "Z")))) .or (.event "Y"))
    obtain ⟨label, hfirst, herror⟩ := hrefused (by decide)
    obtain rfl : "Z" = label := Option.some.inj hfirst
    exact herror

end Spanned

end Credence
