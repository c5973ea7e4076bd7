import Mathlib
import Credence.Proofs.Inference.Exactness

/-!
# The verdict on an inference

What an inference comes to is settled in stages: the event list, the texts one after the other, the
number of unknown expressions, and only then the linear system. The first stage that fails gives the
error, and no stage is ever at fault, except that there may be no room for the cells over too many
events. Nothing is asked of the arithmetic, so this holds for doubles with all their rounding,
infinities and undefined results.
-/

namespace Credence

namespace Inference

/-! ## 1. Stages -/

variable {α : Type} {events texts : List String} {expressions : List Expression}

/-- The expression number `k` has no probability. -/
def UnknownAt (expressions : List Expression) (k : ℕ) : Prop :=
  ∃ e, expressions[k]? = some e ∧ e.isUnknown = true

/-- The events span a space, and the texts, of which there is at least one, write the expressions
over them. -/
structure Written (events texts : List String) (expressions : List Expression) : Prop where
  spans : ∃ space, SampleSpace.span events = .ok space
  nonempty : texts ≠ []
  reads : Reads events texts expressions

theorem Written.exists_spans (h : Written events texts expressions) :
    ∃ space, SampleSpace.Spans events space := by
  obtain ⟨space, hspan⟩ := h.spans
  exact ⟨space, SampleSpace.span_eq_ok_iff.mp hspan⟩

/-- What an inference comes to, stage by stage. Every stage is reached only if those before it
succeed. -/
inductive Verdict (events texts : List String) :
    Except (Failure (InferenceError α)) α → Prop
  | events {error : EventListError} (hspan : SampleSpace.span events = .error (.refused error)) :
    Verdict events texts (.error (.refused (.events error)))
  /-- Nothing is wrong with the events, but the cells over them are too many. -/
  | overflow (hevents : SampleSpace.Usable events) (hlength : Cell.maxListed < events.length) :
    Verdict events texts (.error (.fault .capacityOverflow))
  | noExpressions {space : SampleSpace} (hspan : SampleSpace.span events = .ok space)
    (htexts : texts = []) : Verdict events texts (.error (.refused .noExpressions))
  /-- All texts before this one can be read. -/
  | expression {space : SampleSpace} (hspan : SampleSpace.span events = .ok space)
    {before after : List String} {text : String} (htexts : texts = before ++ text :: after)
    {expressions : List Expression} (hbefore : Reads events before expressions)
    {error : ExpressionError} (htext : Expression.read text events = .error error) :
    Verdict events texts (.error (.refused (.expression error)))
  | missingUnknown {expressions : List Expression} (hwritten : Written events texts expressions)
    (hunknown : ∀ k, ¬ UnknownAt expressions k) :
    Verdict events texts (.error (.refused (.system .missingUnknown)))
  /-- These two are the first ones. -/
  | multipleUnknowns {expressions : List Expression} (hwritten : Written events texts expressions)
    {first second : ℕ} (hlt : first < second)
    (hunknown : ∀ k ≤ second, UnknownAt expressions k ↔ k = first ∨ k = second) :
    Verdict events texts (.error (.refused (.system (.multipleUnknowns first second))))
  | underdetermined {expressions : List Expression} (hwritten : Written events texts expressions)
    {unknown : ℕ} (hunknown : ∀ k, UnknownAt expressions k ↔ k = unknown) :
    Verdict events texts (.error (.refused (.system .underdetermined)))
  | answer {expressions : List Expression} (hwritten : Written events texts expressions)
    {unknown : ℕ} (hunknown : ∀ k, UnknownAt expressions k ↔ k = unknown) (p : α) :
    Verdict events texts (.ok p)

theorem Verdict.eq_capacityOverflow {fault : Fault}
    (h : Verdict events texts (.error (.fault fault) : Except (Failure (InferenceError α)) α)) :
    fault = .capacityOverflow ∧ SampleSpace.Usable events ∧ Cell.maxListed < events.length := by
  cases h with
  | overflow hevents hlength => exact ⟨rfl, hevents, hlength⟩

theorem Verdict.ne_invalidTolerance {outcome : Except (Failure (InferenceError α)) α}
    (h : Verdict events texts outcome) (tolerance : α) :
    outcome ≠ .error (.refused (.system (.invalidTolerance tolerance))) := by
  intro heq
  cases h <;> cases heq

/-! ## 2. Events and texts -/

variable [Scalar α]

/-- Without a sample space there is nothing else to an inference. -/
theorem infer_eq_error_of_span {failure : Failure EventListError}
    (hspan : SampleSpace.span events = .error failure) (config : Config α) :
    infer config events texts = .error (failure.map .events) := by
  have hresult : (span events : Step α SampleSpace).result = .error (failure.map .events) := by
    unfold span
    apply Logged.result_bind_of_error
    rw [Logged.result_mapError, Logged.result_silent, hspan]
    rfl
  rw [infer, run, Logged.result_bind_of_error hresult]

theorem infer_eq_events {error : EventListError}
    (hspan : SampleSpace.span events = .error (.refused error)) (config : Config α) :
    infer config events texts = .error (.refused (.events error)) :=
  infer_eq_error_of_span hspan config

theorem infer_eq_capacityOverflow (hevents : SampleSpace.Usable events)
    (hlength : Cell.maxListed < events.length) (config : Config α) :
    infer config events texts = .error (.fault .capacityOverflow) :=
  infer_eq_error_of_span (SampleSpace.span_eq_capacityOverflow hevents hlength) config

theorem infer_eq_noExpressions {space : SampleSpace} (hspans : SampleSpace.Spans events space)
    (config : Config α) : infer config events [] = .error (.refused .noExpressions) := by
  rw [infer, run, Logged.result_bind_of_ok (result_span hspans)]
  rfl

/-- The texts can be read, or there is a first one that cannot. -/
theorem reads_cases (events texts : List String) :
    (∃ expressions, Reads events texts expressions) ∨
    ∃ before text after expressions error, texts = before ++ text :: after ∧
      Reads events before expressions ∧ Expression.read text events = .error error := by
  induction texts with
  | nil => exact .inl ⟨[], .nil⟩
  | cons text texts ih =>
    cases hread : Expression.read text events with
    | error error => exact .inr ⟨[], text, texts, [], error, rfl, .nil, hread⟩
    | ok e =>
      obtain ⟨expressions, hreads⟩ | ⟨before, text', after, expressions, error, htexts, hbefore,
        htext⟩ := ih
      · exact .inl ⟨e :: expressions, .cons hread hreads⟩
      · rw [htexts]
        exact .inr ⟨text :: before, text', after, e :: expressions, error, rfl,
          .cons hread hbefore, htext⟩

theorem result_mapM_read_eq_error {before after : List String} {text : String}
    (hbefore : Reads events before expressions) {error : ExpressionError}
    (htext : Expression.read text events = .error error) :
    ((before ++ text :: after).mapM (read events) : Step α (List Expression)).result =
      .error (.refused (.expression error)) := by
  have hread : (read events text : Step α Expression).result =
      .error (.refused (.expression error)) := by
    rw [result_read, htext]
    rfl
  rw [List.mapM_append, Logged.result_bind_of_ok hbefore.result_mapM, List.mapM_cons]
  apply Logged.result_bind_of_error
  exact Logged.result_bind_of_error hread _

theorem infer_eq_expression {space : SampleSpace} (hspans : SampleSpace.Spans events space)
    {before after : List String} {text : String} (hbefore : Reads events before expressions)
    {error : ExpressionError} (htext : Expression.read text events = .error error)
    (config : Config α) :
    infer config events (before ++ text :: after) = .error (.refused (.expression error)) := by
  have htexts : (before ++ text :: after).isEmpty = false :=
    List.isEmpty_eq_false_iff.mpr (List.append_ne_nil_of_right_ne_nil _ (List.cons_ne_nil _ _))
  rw [infer, run, Logged.result_bind_of_ok (result_span hspans), htexts, if_neg (by decide),
    hspans.events_eq, Logged.result_bind_of_error (result_mapM_read_eq_error hbefore htext)]

/-! ## 3. The unknown expression -/

theorem unknownAt_iff (expressions : List Expression) (k : ℕ) :
    UnknownAt expressions k ↔
      (expressions.map fun e => e.probability.map (Scalar.ofFloat : Float → α))[k]? =
        some none := by
  unfold UnknownAt Expression.isUnknown
  rw [List.getElem?_map, Option.map_eq_some_iff]
  simp only [Option.map_eq_none_iff, Option.isNone_iff_eq_none]

section Written

variable (hwritten : Written events texts expressions) (config : Config α)

include hwritten

theorem infer_eq_missingUnknown (hunknown : ∀ k, ¬ UnknownAt expressions k) :
    infer config events texts = .error (.refused (.system .missingUnknown)) := by
  obtain ⟨space, hspans⟩ := hwritten.exists_spans
  apply infer_eq_error_of_findUnknown hspans hwritten.reads hwritten.nonempty
  apply findUnknown_eq_missingUnknown
  intro k hk
  exact hunknown k ((unknownAt_iff expressions k).mpr hk)

theorem infer_eq_multipleUnknowns {first second : ℕ} (hlt : first < second)
    (hunknown : ∀ k ≤ second, UnknownAt expressions k ↔ k = first ∨ k = second) :
    infer config events texts =
      .error (.refused (.system (.multipleUnknowns first second))) := by
  obtain ⟨space, hspans⟩ := hwritten.exists_spans
  apply infer_eq_error_of_findUnknown hspans hwritten.reads hwritten.nonempty
  apply findUnknown_eq_multipleUnknowns hlt
  intro k hk
  rw [← unknownAt_iff, hunknown k hk]

/-- With one unknown expression the linear system has the last word. -/
theorem infer_cases_of_unknown {unknown : ℕ} (hunknown : UnknownAt expressions unknown)
    (hfind : findUnknown (expressions.map fun e =>
      e.probability.map (Scalar.ofFloat : Float → α)) = .ok unknown) :
    (∃ p, infer config events texts = .ok p) ∨
      infer config events texts = .error (.refused (.system .underdetermined)) := by
  obtain ⟨space, hspans⟩ := hwritten.exists_spans
  obtain ⟨target, htarget, -⟩ := hunknown
  -- all rows have one bit per cell, so the equations and the target fit the system
  have hlength (e : Expression) : (truthTable events e.chain).length = 2 ^ events.length :=
    (tabulates_truthTable events e.chain).length_eq
  have hrow : (expressions.map fun e => truthTable events e.chain)[unknown]? =
      some (truthTable events target.chain) := by
    rw [List.getElem?_map, htarget]
    rfl
  have hsame : (expressions.map fun e => truthTable events e.chain).length =
      (expressions.map fun e => e.probability.map (Scalar.ofFloat : Float → α)).length := by
    rw [List.length_map, List.length_map]
  rw [infer_eq_mapError hspans hwritten.reads hwritten.nonempty config hfind htarget]
  obtain ⟨p, hp⟩ | herror := result_solveEquationsLogged_cases config.tolerance_nonneg hsame hfind
    hrow (fit_knownEquations_map hlength _ expressions) (hlength target)
  · rw [hp]
    exact .inl ⟨p, rfl⟩
  · rw [herror]
    exact .inr rfl

theorem verdict_of_written : Verdict events texts (infer config events texts) := by
  have hiff := unknownAt_iff (α := α) expressions
  obtain ⟨unknown, hfind, hall⟩ | ⟨-, hnone⟩ | ⟨first, second, -, hlt, hall⟩ :=
    findUnknown_cases (expressions.map fun e => e.probability.map (Scalar.ofFloat : Float → α))
  · have hunknown (k : ℕ) : UnknownAt expressions k ↔ k = unknown := (hiff k).trans (hall k)
    obtain ⟨p, hp⟩ | herror :=
      infer_cases_of_unknown hwritten config ((hunknown unknown).mpr rfl) hfind
    · rw [hp]
      exact .answer hwritten hunknown p
    · rw [herror]
      exact .underdetermined hwritten hunknown
  · have hunknown (k : ℕ) : ¬ UnknownAt expressions k := fun h => hnone k ((hiff k).mp h)
    rw [infer_eq_missingUnknown hwritten config hunknown]
    exact .missingUnknown hwritten hunknown
  · have hunknown : ∀ k ≤ second, UnknownAt expressions k ↔ k = first ∨ k = second :=
      fun k hk => (hiff k).trans (hall k hk)
    rw [infer_eq_multipleUnknowns hwritten config hlt hunknown]
    exact .multipleUnknowns hwritten hlt hunknown

end Written

/-! ## 4. Verdicts -/

theorem verdict_infer (config : Config α) (events texts : List String) :
    Verdict events texts (infer config events texts) := by
  -- first the events, then whether there are texts at all, then each of them
  obtain ⟨error, -, hspan⟩ | ⟨hevents, hlength, -⟩ | ⟨space, hspans⟩ :=
    SampleSpace.span_cases events
  · rw [infer_eq_events hspan]
    exact .events hspan
  · rw [infer_eq_capacityOverflow hevents hlength]
    exact .overflow hevents hlength
  have hspan := SampleSpace.span_eq_ok_iff.mpr hspans
  by_cases htexts : texts = []
  · rw [htexts, infer_eq_noExpressions hspans]
    exact .noExpressions hspan rfl
  obtain ⟨expressions, hreads⟩ | ⟨before, text, after, expressions, error, rfl, hbefore, htext⟩ :=
    reads_cases events texts
  · exact verdict_of_written ⟨⟨space, hspan⟩, htexts, hreads⟩ config
  · rw [infer_eq_expression hspans hbefore htext]
    exact .expression hspan rfl hbefore htext

/-- The stages exclude each other: an error whose conditions are met is the one that comes out. -/
theorem infer_eq_of_verdict {error : InferenceError α}
    (h : Verdict events texts (.error (.refused error)))
    (hdetermined : error ≠ .system .underdetermined) (config : Config α) :
    infer config events texts = .error (.refused error) := by
  cases h with
  | events hspan => exact infer_eq_events hspan config
  | noExpressions hspan htexts =>
    rw [htexts]
    exact infer_eq_noExpressions (SampleSpace.span_eq_ok_iff.mp hspan) config
  | expression hspan htexts hbefore htext =>
    rw [htexts]
    exact infer_eq_expression (SampleSpace.span_eq_ok_iff.mp hspan) hbefore htext config
  | missingUnknown hwritten hunknown => exact infer_eq_missingUnknown hwritten config hunknown
  | multipleUnknowns hwritten hlt hunknown =>
    exact infer_eq_multipleUnknowns hwritten config hlt hunknown
  | underdetermined => exact absurd rfl hdetermined

/-- The row of an expression that was read is there, and its saturated cells are in range. -/
theorem exists_row_of_read {space : SampleSpace} (hspans : SampleSpace.Spans events space)
    {text : String} {e : Expression} (hread : Expression.read text events = .ok e) :
    ∃ coverage maxima row, e.coverage space = .ok coverage ∧ coverage.WellFormed ∧
      Fill.maxima space.cells space.numEvents = .ok maxima ∧
      Fill.saturationRow maxima space.cells coverage = .ok row ∧ row.WellFormed ∧
      ∀ i ∈ row.indices, i < space.numCells := by
  have htable := tabulates_truthTable events e.chain
  refine ⟨_, _, _, Expression.coverage_eq_truthTable hspans
    (fun _ hlabel => Expression.label_mem_of_read hread hlabel), htable.wellFormed,
    hspans.maxima_eq, saturationRow_truthTable hspans e.chain, htable.wellFormed, fun i hi => ?_⟩
  rw [hspans.numCells_eq, ← htable.length_eq]
  exact Bits.lt_length_of_contains (htable.wellFormed.mem_indices.mp hi)

end Inference

/-- Every inference comes to a verdict, and to the one whose conditions are met. It is at fault
exactly if the events are usable and 60 or more, and then for want of room; neither the steps on its
way nor the look-ups of the cells that its notes name are ever at fault. -/
theorem infer_verdict {α : Type} [Scalar α] (config : Config α) (events texts : List String) :
    Inference.Verdict events texts (infer config events texts) ∧
    (∀ error : InferenceError α, error ≠ .system .underdetermined →
      Inference.Verdict events texts (.error (.refused error)) →
        infer config events texts = .error (.refused error)) ∧
    (∀ fault, infer config events texts = .error (.fault fault) ↔
      fault = .capacityOverflow ∧ SampleSpace.Usable events ∧
        Cell.maxListed < events.length) ∧
    (∀ tolerance, infer config events texts ≠
      .error (.refused (.system (.invalidTolerance tolerance)))) ∧
    ∀ space, SampleSpace.span events = .ok space →
      ∀ text e, Expression.read text events = .ok e →
        ∃ coverage maxima row, e.coverage space = .ok coverage ∧ coverage.WellFormed ∧
          Fill.maxima space.cells space.numEvents = .ok maxima ∧
          Fill.saturationRow maxima space.cells coverage = .ok row ∧ row.WellFormed ∧
          ∀ i ∈ row.indices, i < space.numCells := by
  have hverdict := Inference.verdict_infer config events texts
  refine ⟨hverdict, ?_, fun fault => ⟨fun hfault => ?_, ?_⟩, hverdict.ne_invalidTolerance, ?_⟩
  · intro error hdetermined h
    exact Inference.infer_eq_of_verdict h hdetermined config
  · rw [hfault] at hverdict
    exact hverdict.eq_capacityOverflow
  · rintro ⟨rfl, hevents, hlength⟩
    exact Inference.infer_eq_capacityOverflow hevents hlength config
  · intro space hspan text e hread
    exact Inference.exists_row_of_read (SampleSpace.span_eq_ok_iff.mp hspan) hread

/-- Sixty labels are usable, so that there is no expression would be the error. -/
theorem infer_sixtyLabels :
    SampleSpace.Usable SampleSpace.sixtyLabels ∧
      infer Config.standard SampleSpace.sixtyLabels [] = .error (.fault .capacityOverflow) :=
  ⟨SampleSpace.usable_sixtyLabels,
    Inference.infer_eq_capacityOverflow SampleSpace.usable_sixtyLabels (by decide) _⟩

end Credence
