import Mathlib
import Credence.Inference
import Credence.Proofs.Expression.Spelling
import Credence.Proofs.Inference.Outcomes

/-!
# Exactness of inference

Over exact numbers and without tolerance an inference answers exactly when the known probabilities
agree with some weights of the outcomes and all weights that they agree with give the unknown
expression the same probability. This is the answer; otherwise the expression is underdetermined.
-/

namespace Credence

namespace Inference

/-! ## 1. The steps without their notes -/

theorem result_span {α : Type} [Scalar α] {events : List String} {space : SampleSpace}
    (h : SampleSpace.Spans events space) :
    (span events : Step α SampleSpace).result = .ok space := by
  simp only [span, Logged.result_bind, Logged.result_mapError, Logged.result_silent,
    SampleSpace.span_eq_ok_iff.mpr h]
  rfl

theorem result_read {α : Type} [Scalar α] (events : List String) (text : String) :
    (read events text : Step α Expression).result =
      liftRefusal .expression (Expression.read text events) := by
  simp only [read, Logged.result_bind, Logged.result_silent, Logged.result_leave,
    Logged.result_pure, Expression.read, lex]
  cases (Lexer.start text events).run.significant with
  | error e => rfl
  | ok tokens =>
    show (do
      let e ← liftRefusal _ (Expression.parse tokens)
      Except.ok e : Except (Failure (InferenceError α)) Expression) =
        liftRefusal _ ((Expression.parse tokens).mapError ExpressionError.grammar)
    cases Expression.parse tokens with
    | error e => rfl
    | ok e => rfl

/-! ## 2. The equations of an inference -/

/-- The texts write the expressions, one each. -/
abbrev Reads (events texts : List String) (expressions : List Expression) : Prop :=
  List.Forall₂ (fun text e => Expression.read text events = .ok e) texts expressions

theorem Reads.result_mapM {α : Type} [Scalar α] {events texts : List String}
    {expressions : List Expression} (h : Reads events texts expressions) :
    (texts.mapM (read events) : Step α (List Expression)).result = .ok expressions := by
  rw [Logged.result_mapM]
  induction h with
  | nil => rfl
  | cons hread _ ih =>
    rw [List.mapM_cons, ih, result_read, hread]
    rfl

theorem Reads.label_mem {events texts : List String} {expressions : List Expression}
    (h : Reads events texts expressions) {e : Expression} (he : e ∈ expressions) {label : String}
    (hlabel : label ∈ e.chain.labels) : label ∈ events := by
  induction h with
  | nil => exact absurd he List.not_mem_nil
  | cons hread _ ih =>
    rcases List.mem_cons.mp he with rfl | he
    · exact Expression.label_mem_of_read hread hlabel
    · exact ih he

section Read

variable {α : Type} [Scalar α] {events texts : List String} {expressions : List Expression}
  {space : SampleSpace} (hspans : SampleSpace.Spans events space)
  (hreads : Reads events texts expressions) (hne : texts ≠ []) (config : Config α)

include hspans hreads hne

/-- The unknown expression is looked for as soon as the space is spanned and the texts are read. -/
theorem infer_eq_error_of_findUnknown {error : SystemError α}
    (hunknown : findUnknown (expressions.map fun e => e.probability.map Scalar.ofFloat) =
      .error error) :
    infer config events texts = .error (.refused (.system error)) := by
  have htexts : texts.isEmpty = false := List.isEmpty_eq_false_iff.mpr hne
  have hsought : (Logged.silent (liftRefusal .system
      (findUnknown (expressions.map fun e => e.probability.map Scalar.ofFloat))) :
      Step α ℕ).result = .error (.refused (.system error)) := by
    rw [Logged.result_silent, hunknown]
    rfl
  rw [infer, run, Logged.result_bind_of_ok (result_span hspans), htexts, if_neg (by decide),
    hspans.events_eq, Logged.result_bind_of_ok hreads.result_mapM,
    Logged.result_bind_of_error hsought]

/-- What is left of an inference once the unknown expression is found. -/
theorem infer_eq_mapError {unknown : ℕ} {target : Expression}
    (hunknown : findUnknown (expressions.map fun e =>
      e.probability.map (Scalar.ofFloat : Float → α)) = .ok unknown)
    (htarget : expressions[unknown]? = some target) :
    infer config events texts =
      (solveEquationsLogged (2 ^ events.length)
        (expressions.map fun e => truthTable events e.chain)
        (expressions.map fun e => e.probability.map Scalar.ofFloat)
        config.tolerance).result.mapError (·.map .system) := by
  have hrows : (expressions.mapM (row space (Fill.capacities events.length)) :
      Step α (List Bits)).result = .ok (expressions.map fun e => truthTable events e.chain) :=
    result_mapM_row hspans (fun _ he _ hlabel => hreads.label_mem he hlabel) α
  have htexts : texts.isEmpty = false := List.isEmpty_eq_false_iff.mpr hne
  have hsought : (Logged.silent (liftRefusal .system
      (findUnknown (expressions.map fun e => e.probability.map Scalar.ofFloat))) :
      Step α ℕ).result = .ok unknown := by
    rw [Logged.result_silent, hunknown]
    rfl
  have hfilled : (Logged.silent (liftFault (Fill.maxima space.cells space.numEvents)) :
      Step α (Array ℕ)).result = .ok (Fill.capacities events.length) := by
    show liftFault (Fill.maxima space.cells space.numEvents) = _
    rw [hspans.maxima_eq]
    rfl
  -- the steps succeed one after the other, up to the linear system
  rw [infer, run, Logged.result_bind_of_ok (result_span hspans), htexts, if_neg (by decide),
    hspans.events_eq, Logged.result_bind_of_ok hreads.result_mapM,
    Logged.result_bind_of_ok hsought]
  simp only [htarget]
  rw [Logged.result_bind_of_ok (Logged.result_leave _), Logged.result_bind_of_ok hfilled,
    Logged.result_bind_of_ok hrows, Logged.result_bind, Logged.result_mapError, hspans.numCells_eq]
  cases (solveEquationsLogged (2 ^ events.length)
    (expressions.map fun e => truthTable events e.chain)
    (expressions.map fun e => e.probability.map Scalar.ofFloat) config.tolerance).result with
  | error e => rfl
  | ok p => rfl

end Read

/-! ## 3. The answer -/

/-- The inference comes down to whether the equations determine the unknown probability. -/
theorem infer_cases {events texts : List String} {expressions : List Expression}
    {target : Expression} {space : SampleSpace} (hspans : SampleSpace.Spans events space)
    (hreads : Reads events texts expressions)
    (hunknown : expressions.filter Expression.isUnknown = [target]) {config : Config ℚ}
    (hconfig : config.tolerance = 0) :
    (∀ p, infer config events texts = .ok p ↔
      Determines (2 ^ events.length) (equationsOf events expressions)
        (truthTable events target.chain) p) ∧
    ((∀ p, ¬ Determines (2 ^ events.length) (equationsOf events expressions)
        (truthTable events target.chain) p) →
      infer config events texts = .error (.refused (.system .underdetermined))) := by
  have hunknown' : expressions.filter (fun e => e.exact.isNone) = [target] := by
    rw [← hunknown]
    apply List.filter_congr
    intro e _
    rw [Expression.exact, Option.isNone_map, Expression.isUnknown]
  obtain ⟨k, hfind, hat⟩ := exists_findUnknown hunknown'
  have hne : texts ≠ [] := by
    rintro rfl
    cases hreads
    cases hunknown
  have hlength (e : Expression) : (truthTable events e.chain).length = 2 ^ events.length :=
    (tabulates_truthTable events e.chain).length_eq
  have hresult := result_solveEquationsLogged_map hunknown' hlength
  have hinfer : infer config events texts =
      (solveEquationsLogged (2 ^ events.length)
        (expressions.map fun e => truthTable events e.chain) (expressions.map Expression.exact)
        config.tolerance).result.mapError (·.map .system) :=
    infer_eq_mapError hspans hreads hne config hfind hat
  rw [hinfer, hconfig]
  refine ⟨fun p => ?_, fun hnot => ?_⟩
  · rw [equationsOf, ← hresult.1 p]
    cases (solveEquationsLogged (2 ^ events.length)
      (expressions.map fun e => truthTable events e.chain)
      (expressions.map Expression.exact) 0).result with
    | error e => simp [Except.mapError]
    | ok q => simp [Except.mapError]
  · rw [hresult.2 hnot]
    rfl

end Inference

/-- Of the four parts the second and third say when there is an answer and which, the last one what
it means for distributions. The texts are read as they are spelled, from left to right. -/
theorem infer_eq_ok_iff_weight_determined {events texts : List String}
    {expressions : List Expression} {target : Expression} {space : SampleSpace}
    (hspan : SampleSpace.span events = .ok space)
    (hreads : List.Forall₂ (fun text e => Expression.read text events = .ok e) texts expressions)
    (hunknown : expressions.filter Expression.isUnknown = [target]) {config : Config ℚ}
    (hconfig : config.tolerance = 0) :
    List.Forall₂ (fun text e => lex text events = .ok e.tokens) texts expressions ∧
    (∀ p, infer config events texts = .ok p ↔
      (∃ w, Agrees events expressions w) ∧
        ∀ w, Agrees events expressions w → target.chain.weight events w = p) ∧
    ((¬ ∃ p, (∃ w, Agrees events expressions w) ∧
        ∀ w, Agrees events expressions w → target.chain.weight events w = p) →
      infer config events texts = .error (.refused (.system .underdetermined))) ∧
    ∀ p, infer config events texts = .ok p → ∀ w, Agrees events expressions w →
      (∀ outcome, 0 ≤ w outcome) → target.chain.weight events w = p := by
  have hspans := SampleSpace.span_eq_ok_iff.mp hspan
  have hlabels : ∀ e ∈ expressions, ∀ label ∈ e.chain.labels, label ∈ events :=
    fun e he label hlabel => Inference.Reads.label_mem hreads he hlabel
  have hmem : target ∈ expressions := by
    have : target ∈ expressions.filter Expression.isUnknown := by simp [hunknown]
    exact (List.mem_filter.mp this).1
  obtain ⟨hok, herror⟩ := Inference.infer_cases hspans hreads hunknown hconfig
  simp only [determines_iff hspans.usable.nodup hlabels hmem] at hok herror
  refine ⟨hreads.imp fun _ _ h => Expression.lex_eq_of_read h, hok,
    fun hnot => herror fun p hp => hnot ⟨p, hp⟩, fun p hp w hw _ => ?_⟩
  exact ((hok p).mp hp).2 w hw

theorem infer_eq_ok_iff_weight_determined_two_events :
    infer (⟨0, le_rfl⟩ : Config ℚ) ["A", "B"]
      ["A = 0.5", "A or B and B = 0.5", "A and B", "A or B = 0.75"] = .ok (1 / 4) := by
  obtain ⟨space, hspans⟩ := SampleSpace.exists_spans
    (show SampleSpace.Usable ["A", "B"] from ⟨by decide, by decide, by decide, by decide⟩)
    (by decide)
  let expressions : List Expression :=
    [⟨.single (.event "A"), some 0.5⟩,
      ⟨.join (.join (.single (.event "A")) .or (.event "B")) .and (.event "B"), some 0.5⟩,
      ⟨.join (.single (.event "A")) .and (.event "B"), none⟩,
      ⟨.join (.single (.event "A")) .or (.event "B"), some 0.75⟩]
  have hreads : List.Forall₂ (fun text e => Expression.read text ["A", "B"] = .ok e)
      ["A = 0.5", "A or B and B = 0.5", "A and B", "A or B = 0.75"] expressions :=
    .cons (by decide +kernel) (.cons (by decide +kernel) (.cons (by decide +kernel)
      (.cons (by decide +kernel) .nil)))
  have hhalf : (Scalar.ofFloat 0.5 : ℚ) = 1 / 2 := by decide +kernel
  have hthree : (Scalar.ofFloat 0.75 : ℚ) = 3 / 4 := by decide +kernel
  -- the four outcomes written out
  have hsum (f : Finset String → ℚ) : ∑ outcome ∈ ["A", "B"].toFinset.powerset, f outcome =
      f ∅ + f {"A"} + f {"B"} + f {"A", "B"} := by
    have hpowerset : ["A", "B"].toFinset.powerset = {∅, {"A"}, {"B"}, {"A", "B"}} := by decide
    rw [hpowerset, Finset.sum_insert (by decide), Finset.sum_insert (by decide),
      Finset.sum_insert (by decide), Finset.sum_singleton]
    ring
  have hweight (chain : Chain) (w : Finset String → ℚ) : chain.weight ["A", "B"] w =
      (if chain.holds (fun label => label ∈ (∅ : Finset String)) = true then w ∅ else 0) +
      (if chain.holds (fun label => label ∈ ({"A"} : Finset String)) = true then w {"A"} else 0) +
      (if chain.holds (fun label => label ∈ ({"B"} : Finset String)) = true then w {"B"} else 0) +
      if chain.holds (fun label => label ∈ ({"A", "B"} : Finset String)) = true
        then w {"A", "B"} else 0 := by
    rw [Chain.weight, Finset.sum_filter, hsum]
  have hagrees (w : Finset String → ℚ) : Agrees ["A", "B"] expressions w ↔
      w ∅ + w {"A"} + w {"B"} + w {"A", "B"} = 1 ∧ w {"A"} + w {"A", "B"} = 1 / 2 ∧
        w {"B"} + w {"A", "B"} = 1 / 2 ∧ w {"A"} + w {"B"} + w {"A", "B"} = 3 / 4 := by
    have hiff : Agrees ["A", "B"] expressions w ↔
        ∑ outcome ∈ ["A", "B"].toFinset.powerset, w outcome = 1 ∧
          ∀ e ∈ expressions, ∀ q, e.probability = some q →
            e.chain.weight ["A", "B"] w = Scalar.ofFloat q :=
      ⟨fun h => ⟨h.total, h.known⟩, fun h => ⟨h.1, h.2⟩⟩
    rw [hiff, hsum]
    simp [expressions, hweight, Chain.holds, Operand.holds, Connective.truth, hhalf, hthree]
  obtain ⟨-, hok, -, -⟩ :=
    infer_eq_ok_iff_weight_determined (SampleSpace.span_eq_ok_iff.mpr hspans) hreads rfl
      (show (⟨0, le_rfl⟩ : Config ℚ).tolerance = 0 from rfl)
  refine (hok (1 / 4)).mpr ⟨⟨fun _ => 1 / 4, ?_⟩, fun w hw => ?_⟩
  · rw [hagrees]
    norm_num
  -- inclusion and exclusion
  · obtain ⟨-, hA, hB, hunion⟩ := (hagrees w).mp hw
    rw [hweight]
    simp [Chain.holds, Operand.holds, Connective.truth]
    linarith

end Credence
