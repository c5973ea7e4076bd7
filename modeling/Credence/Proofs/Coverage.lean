import Mathlib
import Credence.Coverage
import Credence.Inference
import Credence.Proofs.Expression.Truth
import Credence.Proofs.Fill.Saturation
import Credence.Proofs.SampleSpace

/-!
# Coverage as a truth table

The cells that an expression selects are those in which it holds. As no connective negates, a cell
that contains a selected one is selected too. So every selected cell is saturated and no other, and
the equation of an expression has its selected cells as coefficients.
-/

namespace Credence

open SampleSpace (Spans)

/-! ## 1. Events in a cell -/

/-- Whether the event with a given label occurs in cell number `i`. -/
def occursIn (events : List String) (i : ℕ) (label : String) : Bool :=
  i.testBit (events.idxOf label)

theorem occursIn_mono {events : List String} (hlen : events.length ≤ Cell.maxEvents) {i j : ℕ}
    (hi : i < 2 ^ events.length) (hj : j < 2 ^ events.length)
    (h : (Cell.ofIndex i).isSubsetOf (Cell.ofIndex j) = true) (label : String)
    (hoccurs : occursIn events i label = true) : occursIn events j label = true := by
  have hpow : 2 ^ events.length ≤ 2 ^ Cell.maxEvents := Nat.pow_le_pow_right (by omega) hlen
  rw [Cell.isSubsetOf_iff, Cell.eventSet_ofIndex (by omega), Cell.eventSet_ofIndex (by omega)] at h
  exact Cell.mem_equivBitIndices.mp (h (Cell.mem_equivBitIndices.mpr hoccurs))

theorem occursIn_zero (events : List String) (label : String) : occursIn events 0 label = false :=
  Nat.zero_testBit _

theorem occursIn_of_eventSet_eq {events : List String} {c : Cell}
    (hc : c.eventSet = Finset.range events.length) {label : String} (h : label ∈ events) :
    occursIn events c.index label = true := by
  apply Cell.mem_eventSet.mp
  rw [hc, Finset.mem_range]
  exact List.idxOf_lt_length_of_mem h

/-! ## 2. The table of an expression -/

structure Tabulates (events : List String) (value : (String → Bool) → Bool) (coverage : Bits) :
    Prop where
  wellFormed : coverage.WellFormed
  length_eq : coverage.length = 2 ^ events.length
  contains_eq : ∀ i < 2 ^ events.length, coverage.contains i = value (occursIn events i)

section Fold

variable {events : List String}

theorem Connective.combine_spec (connective : Connective) {f g : (String → Bool) → Bool}
    {a b : Bits} (ha : Tabulates events f a) (hb : Tabulates events g b) :
    ∃ c, connective.combine a b = .ok c ∧
      Tabulates events (fun occurs => connective.truth (f occurs) (g occurs)) c := by
  have hlen : a.length = b.length := ha.length_eq.trans hb.length_eq.symm
  cases connective with
  | and =>
    obtain ⟨c, hc, hwell, hlength, hcontains⟩ :=
      Bits.inter_spec ha.wellFormed hb.wellFormed hlen
    refine ⟨c, hc, hwell, hlength.trans ha.length_eq, fun i hi => ?_⟩
    rw [hcontains, ha.contains_eq i hi, hb.contains_eq i hi]
    rfl
  | or =>
    obtain ⟨c, hc, hwell, hlength, hcontains⟩ :=
      Bits.union_spec ha.wellFormed hb.wellFormed hlen
    refine ⟨c, hc, hwell, hlength.trans ha.length_eq, fun i hi => ?_⟩
    rw [hcontains, ha.contains_eq i hi, hb.contains_eq i hi]
    rfl

theorem tabulates_zeros : Tabulates events (fun _ => false) (Bits.zeros (2 ^ events.length)) where
  wellFormed := Bits.wellFormed_zeros _
  length_eq := rfl
  contains_eq := fun _ _ => Bits.contains_zeros _ _

mutual
theorem Operand.coverage_spec {space : SampleSpace} (h : Spans events space) :
    (operand : Operand) → (∀ label ∈ operand.labels, label ∈ events) →
    ∃ coverage, operand.coverage space = .ok coverage ∧
      Tabulates events (fun occurs => operand.holds occurs) coverage
  | .event label, hlabels => by
    obtain ⟨indicator, hind, hwell, hlength, hcontains⟩ :=
      h.indicator_spec (hlabels label (List.mem_singleton_self label))
    exact ⟨indicator, hind, hwell, hlength, hcontains⟩
  | .group chain, hlabels => chain.coverage_spec h hlabels
theorem Chain.coverage_spec {space : SampleSpace} (h : Spans events space) :
    (chain : Chain) → (∀ label ∈ chain.labels, label ∈ events) →
    ∃ coverage, chain.coverage space = .ok coverage ∧
      Tabulates events (fun occurs => chain.holds occurs) coverage
  | .single operand, hlabels => by
    obtain ⟨cells, hcells, htable⟩ := operand.coverage_spec h hlabels
    -- the fold starts from no cells at all
    obtain ⟨coverage, hcombine, htable'⟩ := Connective.or.combine_spec tabulates_zeros htable
    refine ⟨coverage, ?_, htable'⟩
    rw [Chain.coverage, hcells, h.numCells_eq]
    show liftFault (Connective.or.combine _ cells) = _
    rw [hcombine]
    rfl
  | .join chain connective operand, hlabels => by
    obtain ⟨before, hbefore, htable₁⟩ :=
      chain.coverage_spec h fun label hlabel => hlabels label (List.mem_append_left _ hlabel)
    obtain ⟨cells, hcells, htable₂⟩ :=
      operand.coverage_spec h fun label hlabel => hlabels label (List.mem_append_right _ hlabel)
    obtain ⟨coverage, hcombine, htable⟩ := connective.combine_spec htable₁ htable₂
    refine ⟨coverage, ?_, htable⟩
    rw [Chain.coverage, hbefore, hcells]
    show liftFault (connective.combine before cells) = _
    rw [hcombine]
    rfl
end

end Fold

/-! ## 3. Expressions -/

/-- The cells in which a chain holds. -/
def truthTable (events : List String) (chain : Chain) : Bits :=
  Bits.ofBools ((List.range (2 ^ events.length)).map fun i => chain.holds (occursIn events i))

theorem tabulates_truthTable (events : List String) (chain : Chain) :
    Tabulates events (fun occurs => chain.holds occurs) (truthTable events chain) where
  wellFormed := Bits.wellFormed_ofBools _
  length_eq := by rw [truthTable, Bits.ofBools, List.length_map, List.length_range]
  contains_eq := fun i hi => by
    rw [truthTable, Bits.contains_ofBools, List.getD_eq_getElem?_getD, List.getElem?_map,
      List.getElem?_range hi]
    rfl

theorem Tabulates.unique {events : List String} {value : (String → Bool) → Bool} {a b : Bits}
    (ha : Tabulates events value a) (hb : Tabulates events value b) : a = b := by
  have hlen : a.length = b.length := ha.length_eq.trans hb.length_eq.symm
  apply Bits.WellFormed.ext ha.wellFormed hb.wellFormed hlen
  intro i
  by_cases hi : i < 2 ^ events.length
  · rw [ha.contains_eq i hi, hb.contains_eq i hi]
  · have hlength := hb.length_eq
    rw [Bits.contains_of_length_le (by omega), Bits.contains_of_length_le (by omega)]

theorem upwardClosed_truthTable {events : List String} (hlen : events.length ≤ Cell.maxEvents)
    (chain : Chain) : (truthTable events chain).UpwardClosed := by
  have htable := tabulates_truthTable events chain
  have hlength := htable.length_eq
  intro i j hj hsub hcontains
  have hi : i < 2 ^ events.length := by
    rw [← hlength]
    exact Bits.lt_length_of_contains hcontains
  rw [htable.contains_eq i hi] at hcontains
  rw [htable.contains_eq j (by omega)]
  exact chain.holds_mono (occursIn_mono hlen hi (by omega) hsub) hcontains

section Spanned

variable {events : List String} {space : SampleSpace} (h : Spans events space) {e : Expression}
  (he : ∀ label ∈ e.chain.labels, label ∈ events)

include h

theorem saturationRow_truthTable (chain : Chain) :
    Fill.saturationRow (Fill.capacities events.length) space.cells (truthTable events chain) =
      .ok (truthTable events chain) :=
  Fill.saturationRow_of_upwardClosed h.enumerate (tabulates_truthTable events chain).wellFormed
    (tabulates_truthTable events chain).length_eq
    (upwardClosed_truthTable h.usable.length_le chain)

theorem SampleSpace.Spans.maxima_eq :
    Fill.maxima space.cells space.numEvents = .ok (Fill.capacities events.length) := by
  rw [SampleSpace.numEvents, h.events_eq]
  exact Fill.maxima_eq_capacities h.enumerate

section Row

include he

theorem Expression.coverage_eq_truthTable : e.coverage space = .ok (truthTable events e.chain) := by
  obtain ⟨coverage, hcoverage, htable⟩ := e.chain.coverage_spec h he
  rw [Expression.coverage, hcoverage, htable.unique (tabulates_truthTable events e.chain)]

theorem Inference.row_eq_truthTable (α : Type) [Scalar α] :
    (Inference.row space (Fill.capacities events.length) e : Inference.Step α Bits).result =
      .ok (truthTable events e.chain) := by
  simp only [Inference.row, Logged.result_bind, Logged.result_mapError, Logged.result_silent,
    Logged.result_leave, Logged.result_pure, Expression.coverage_eq_truthTable h he]
  show (do
    let row ← liftFault (Fill.saturationRow _ space.cells (truthTable events e.chain))
    Except.ok row : Except (Failure (InferenceError α)) Bits) = _
  rw [saturationRow_truthTable h]
  rfl

end Row

/-- The rows of expressions are their truth tables. -/
theorem Inference.result_mapM_row {β : Type} {f : β → Expression} {items : List β}
    (hlabels : ∀ item ∈ items, ∀ label ∈ (f item).chain.labels, label ∈ events)
    (α : Type) [Scalar α] :
    (items.mapM fun item =>
      (Inference.row space (Fill.capacities events.length) (f item) : Inference.Step α Bits)).result =
        .ok (items.map fun item => truthTable events (f item).chain) := by
  rw [Logged.result_mapM]
  exact mapM_eq_ok fun item hitem => Inference.row_eq_truthTable h (hlabels item hitem) α

end Spanned

theorem Expression.exists_upwardClosed_coverage (α : Type) [Scalar α] {events : List String}
    {space : SampleSpace} (hspace : SampleSpace.span events = .ok space) {e : Expression}
    (he : ∀ label ∈ e.chain.labels, label ∈ events) :
    ∃ coverage, e.coverage space = .ok coverage ∧ coverage.length = 2 ^ events.length ∧
      coverage.UpwardClosed ∧ coverage.contains Cell.empty.index = false ∧
      (∀ c : Cell, c.eventSet = Finset.range events.length → coverage.contains c.index = true) ∧
      ∃ maxima, Fill.maxima space.cells space.numEvents = .ok maxima ∧
        Fill.saturationRow maxima space.cells coverage = .ok coverage ∧
        (Inference.row space maxima e : Inference.Step α Bits).result = .ok coverage ∧
        ∀ (constant : α) (i : Fin space.numCells),
          (Row.ofBits coverage constant : Row α space.numCells).get i.castSucc =
            if coverage.contains i then 1 else 0 := by
  have h := SampleSpace.span_eq_ok_iff.mp hspace
  have htable := tabulates_truthTable events e.chain
  refine ⟨truthTable events e.chain, Expression.coverage_eq_truthTable h he, htable.length_eq,
    upwardClosed_truthTable h.usable.length_le e.chain, ?_, fun c hc => ?_,
    Fill.capacities events.length, ?_, saturationRow_truthTable h e.chain,
    Inference.row_eq_truthTable h he α, fun constant i => ?_⟩
  -- no event occurs in the empty cell
  · show (truthTable events e.chain).contains 0 = false
    rw [htable.contains_eq 0 (Nat.two_pow_pos _)]
    exact Chain.holds_eq_of_forall fun label _ => occursIn_zero events label
  -- all events occur in the full cell
  · rw [htable.contains_eq c.index (Cell.eventSet_subset_range.mp hc.subset)]
    exact Chain.holds_eq_of_forall fun label hlabel => occursIn_of_eventSet_eq hc (he label hlabel)
  · rw [SampleSpace.numEvents, h.events_eq]
    exact Fill.maxima_eq_capacities h.enumerate
  · simp [Row.ofBits, Vector.get_eq_getElem, i.isLt.ne]

theorem Expression.exists_upwardClosed_coverage_two_events :
    ∃ space, SampleSpace.span ["A", "B"] = .ok space ∧
      ∃ coverage, Expression.coverage space
          ⟨.join (.single (.event "A")) .or
            (.group (.join (.single (.event "B")) .and (.event "A"))), none⟩ = .ok coverage ∧
        coverage.UpwardClosed ∧ coverage.contains 0 = false ∧ coverage.contains 3 = true ∧
        ∃ maxima, Fill.maxima space.cells 2 = .ok maxima ∧
          Fill.saturationRow maxima space.cells coverage = .ok coverage := by
  obtain ⟨space, h⟩ := SampleSpace.exists_spans
    (show SampleSpace.Usable ["A", "B"] from
      ⟨by decide, by decide, by decide, by decide⟩) (by decide)
  have hspan := SampleSpace.span_eq_ok_iff.mpr h
  obtain ⟨coverage, hcoverage, -, hup, hempty, hfull, maxima, hmaxima, hrow, -⟩ :=
    Expression.exists_upwardClosed_coverage ℚ hspan
      (e := ⟨.join (.single (.event "A")) .or
        (.group (.join (.single (.event "B")) .and (.event "A"))), none⟩) (by decide)
  refine ⟨space, hspan, coverage, hcoverage, hup, hempty, hfull (Cell.ofIndex 3) ?_, maxima, ?_,
    hrow⟩
  · decide
  · rw [SampleSpace.numEvents, h.events_eq] at hmaxima
    exact hmaxima

end Credence
