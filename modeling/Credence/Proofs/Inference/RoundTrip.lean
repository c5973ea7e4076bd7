import Mathlib
import Credence.Proofs.Inference.Exactness

/-!
# Conjunctions determine a distribution

The probabilities of the conjunctions, one for each set of events, determine the weights of the
outcomes: the weight of an outcome is what its conjunction has beyond the weights of the larger
outcomes. So whoever states all of them gets the probability of any expression back.
-/

namespace Credence

/-! ## 1. Conjunctions -/

/-- Labels joined by `and`. -/
def Chain.conjunction (first : String) (rest : List String) : Chain :=
  rest.foldl (fun chain label => .join chain .and (.event label)) (.single (.event first))

theorem Chain.holds_conjunction (occurs : String → Bool) (first : String) (rest : List String) :
    (Chain.conjunction first rest).holds occurs = (first :: rest).all occurs := by
  -- for any chain in front, as each label is joined to those before it
  suffices h : ∀ chain : Chain,
      (rest.foldl (fun chain label => Chain.join chain .and (.event label)) chain).holds occurs =
        (chain.holds occurs && rest.all occurs) from h _
  induction rest with
  | nil =>
    intro chain
    rw [List.foldl_nil, List.all_nil, Bool.and_true]
  | cons label rest ih =>
    intro chain
    rw [List.foldl_cons, ih, List.all_cons, ← Bool.and_assoc]
    rfl

/-- A conjunction has the weight of the outcomes in which at least its labels occur. -/
theorem Chain.weight_conjunction (events : List String) (w : Finset String → ℚ) (first : String)
    (rest : List String) :
    (Chain.conjunction first rest).weight events w =
      ∑ outcome ∈ events.toFinset.powerset with (first :: rest).toFinset ⊆ outcome, w outcome := by
  unfold Chain.weight
  congr 1
  apply Finset.filter_congr
  intro outcome _
  rw [Chain.holds_conjunction, List.all_eq_true]
  simp only [decide_eq_true_eq, Finset.subset_iff, List.mem_toFinset]

/-! ## 2. Sums over larger outcomes -/

theorem eq_zero_of_sum_superset {E : Finset String} {f : Finset String → ℚ}
    (h : ∀ S ⊆ E, ∑ T ∈ E.powerset with S ⊆ T, f T = 0) {S : Finset String} (hS : S ⊆ E) :
    f S = 0 := by
  -- on the number of elements that are missing: the larger sets have been dealt with
  induction hk : (E \ S).card using Nat.strong_induction_on generalizing S with
  | h k ih =>
    have hmem : S ∈ E.powerset.filter (S ⊆ ·) := by
      rw [Finset.mem_filter, Finset.mem_powerset]
      exact ⟨hS, Finset.Subset.refl S⟩
    have hsum := h S hS
    rw [Finset.sum_eq_single_of_mem S hmem] at hsum
    · exact hsum
    · intro T hT hne
      rw [Finset.mem_filter, Finset.mem_powerset] at hT
      have hlt := Finset.card_lt_card (hT.2.ssubset_of_ne (Ne.symm hne))
      have hle := Finset.card_le_card hT.1
      have hcard : (E \ T).card < k := by
        rw [← hk, Finset.card_sdiff_of_subset hT.1, Finset.card_sdiff_of_subset hS]
        omega
      exact ih _ hcard hT.1 rfl

/-- Weights are determined by their sums over the outcomes that contain a given one. -/
theorem eq_of_sum_superset {E : Finset String} {v w : Finset String → ℚ}
    (h : ∀ S ⊆ E, ∑ T ∈ E.powerset with S ⊆ T, v T = ∑ T ∈ E.powerset with S ⊆ T, w T)
    {S : Finset String} (hS : S ⊆ E) : v S = w S := by
  have hzero : ∀ S ⊆ E, ∑ T ∈ E.powerset with S ⊆ T, (v T - w T) = 0 := by
    intro S hS
    rw [Finset.sum_sub_distrib, h S hS, sub_self]
  exact sub_eq_zero.mp (eq_zero_of_sum_superset hzero hS)

/-! ## 3. Stated conjunctions -/

section Stated

variable {events : List String} (hnodup : events.Nodup) {w : Finset String → ℚ}
  (htotal : ∑ outcome ∈ events.toFinset.powerset, w outcome = 1)
  {stated : List (Expression × Option ℚ)}
  (hlabels : ∀ e ∈ stated, ∀ label ∈ e.1.chain.labels, label ∈ events)
  (hknown : ∀ e q, (e, some q) ∈ stated → e.chain.weight events w = q)
  (hconjunctions : ∀ S ⊆ events.toFinset, S.Nonempty → ∃ e q first rest,
    (e, some q) ∈ stated ∧ e.chain = Chain.conjunction first rest ∧ (first :: rest).toFinset = S)

include hnodup htotal hlabels hknown hconjunctions

/-- Where all conjunctions are stated, the distribution is the only solution. -/
theorem determines_of_conjunctions {chain : Chain}
    (hchain : ∀ label ∈ chain.labels, label ∈ events) :
    Determines (2 ^ events.length)
      (stated.filterMap fun e => e.2.map (truthTable events e.1.chain, ·))
      (truthTable events chain) (chain.weight events w) := by
  have hiff := solves_outcomes_iff hnodup (·.2) hlabels
  refine ⟨⟨_, (hiff w).mpr ⟨htotal, fun e he q hq => ?_⟩⟩, fun x hx => ?_⟩
  · apply hknown e.1 q
    rw [← hq]
    exact he
  · obtain ⟨v, rfl⟩ := exists_weights hnodup x
    have hv := (hiff v).mp hx
    -- the solution agrees with the distribution on all outcomes, so on every chain
    have heq : ∀ S ⊆ events.toFinset, v S = w S := by
      intro S hS
      apply eq_of_sum_superset _ hS
      intro S hS
      by_cases hempty : S = ∅
      · simp only [hempty, Finset.empty_subset, Finset.filter_true]
        rw [hv.1, htotal]
      · obtain ⟨e, q, first, rest, he, hconj, hset⟩ :=
          hconjunctions S hS (Finset.nonempty_iff_ne_empty.mpr hempty)
        have hsame := (hv.2 _ he q rfl).trans (hknown e q he).symm
        rw [hconj, Chain.weight_conjunction, Chain.weight_conjunction, hset] at hsame
        exact hsame
    rw [← Chain.weight_eq hnodup hchain]
    apply Finset.sum_congr rfl
    intro outcome houtcome
    exact heq outcome (Finset.mem_powerset.mp (Finset.mem_filter.mp houtcome).1)

end Stated

/-- Expressions are stated with the probabilities that a distribution gives them, among them the
conjunction of each set of events; one is left open. Then its own probability is the answer. So it
is for an inference from texts that state the same. -/
theorem exists_solveEquations_eq_ok_of_conjunctions {events : List String}
    (hevents : SampleSpace.Usable events) (hroom : events.length ≤ Cell.maxListed)
    {w : Finset String → ℚ} (htotal : ∑ outcome ∈ events.toFinset.powerset, w outcome = 1)
    {stated : List (Expression × Option ℚ)} {target : Expression}
    (hunknown : stated.filter (fun e => e.2.isNone) = [(target, none)])
    (hlabels : ∀ e ∈ stated, ∀ label ∈ e.1.chain.labels, label ∈ events)
    (hknown : ∀ e q, (e, some q) ∈ stated → e.chain.weight events w = q)
    (hconjunctions : ∀ S ⊆ events.toFinset, S.Nonempty → ∃ e q first rest,
      (e, some q) ∈ stated ∧ e.chain = Chain.conjunction first rest ∧
        (first :: rest).toFinset = S) :
    (∃ space maxima rows, SampleSpace.span events = .ok space ∧
      Fill.maxima space.cells space.numEvents = .ok maxima ∧
      (stated.mapM fun e => (Inference.row space maxima e.1 : Inference.Step ℚ Bits)).result =
        .ok rows ∧
      solveEquations space.numCells rows (stated.map (·.2)) 0 =
        .ok (target.chain.weight events w)) ∧
    ∀ texts expressions, List.Forall₂ (fun text e => Expression.read text events = .ok e)
        texts expressions → stated = expressions.map (fun e => (e, e.exact)) →
      ∀ config : Config ℚ, config.tolerance = 0 →
        infer config events texts = .ok (target.chain.weight events w) := by
  have hmem : (target, none) ∈ stated := by
    have : (target, none) ∈ stated.filter fun e => e.2.isNone := by simp [hunknown]
    exact (List.mem_filter.mp this).1
  have hdetermined := determines_of_conjunctions hevents.nodup htotal hlabels hknown hconjunctions
    (hlabels _ hmem)
  obtain ⟨space, hspans⟩ := SampleSpace.exists_spans hevents hroom
  constructor
  · have hrows := Inference.result_mapM_row hspans hlabels ℚ
    have hlength (e : Expression × Option ℚ) :
        (truthTable events e.1.chain).length = 2 ^ events.length :=
      (tabulates_truthTable events e.1.chain).length_eq
    refine ⟨space, _, _, SampleSpace.span_eq_ok_iff.mpr hspans, hspans.maxima_eq, hrows, ?_⟩
    rw [hspans.numCells_eq, solveEquations,
      (result_solveEquationsLogged_map hunknown hlength).1]
    exact hdetermined
  · intro texts expressions hreads hstated config hconfig
    rw [hstated, List.filter_map] at hunknown
    obtain ⟨e, hfilter, hpair⟩ := List.map_eq_singleton_iff.mp hunknown
    rw [Prod.mk.injEq] at hpair
    have hfilter' : expressions.filter Expression.isUnknown = [target] := by
      rw [← hpair.1, ← hfilter]
      apply List.filter_congr
      intro e _
      rw [Function.comp_apply, Expression.exact, Option.isNone_map, Expression.isUnknown]
    rw [(Inference.infer_cases hspans hreads hfilter' hconfig).1]
    rw [hstated, List.filterMap_map] at hdetermined
    exact hdetermined

theorem exists_solveEquations_eq_ok_of_conjunctions_two_events :
    let stated : List (Expression × Option ℚ) :=
      [(⟨.single (.event "A"), none⟩, some (3 / 5)),
        (⟨.join (.single (.event "A")) .or (.event "B"), none⟩, none),
        (⟨.single (.event "B"), none⟩, some (7 / 10)),
        (⟨.join (.single (.event "B")) .and (.event "A"), none⟩, some (2 / 5))]
    ∃ space maxima rows, SampleSpace.span ["A", "B"] = .ok space ∧
      Fill.maxima space.cells space.numEvents = .ok maxima ∧
      (stated.mapM fun e => (Inference.row space maxima e.1 : Inference.Step ℚ Bits)).result =
        .ok rows ∧
      solveEquations space.numCells rows (stated.map (·.2)) 0 = .ok (9 / 10) := by
  intro stated
  let w : Finset String → ℚ := fun S =>
    if S = ∅ then 1 / 10 else if S = {"A"} then 1 / 5 else if S = {"B"} then 3 / 10 else 2 / 5
  have hevents : SampleSpace.Usable ["A", "B"] := ⟨by decide, by decide, by decide, by decide⟩
  have hknown : ∀ e q, (e, some q) ∈ stated → e.chain.weight ["A", "B"] w = q := by
    simp only [stated, List.mem_cons, List.not_mem_nil, Prod.mk.injEq, Option.some.injEq,
      reduceCtorEq, and_false, or_false, false_or]
    rintro e q (⟨rfl, rfl⟩ | ⟨rfl, rfl⟩ | ⟨rfl, rfl⟩) <;> decide +kernel
  have hsubsets : ∀ S ⊆ ["A", "B"].toFinset, S.Nonempty → S = {"A"} ∨ S = {"B"} ∨ S = {"B", "A"} := by
    decide +kernel
  have hconjunctions : ∀ S ⊆ ["A", "B"].toFinset, S.Nonempty → ∃ e q first rest,
      (e, some q) ∈ stated ∧ e.chain = Chain.conjunction first rest ∧
        (first :: rest).toFinset = S := by
    intro S hS hne
    rcases hsubsets S hS hne with rfl | rfl | rfl
    · exact ⟨⟨.conjunction "A" [], none⟩, 3 / 5, "A", [], by simp [stated, Chain.conjunction], rfl,
        by decide⟩
    · exact ⟨⟨.conjunction "B" [], none⟩, 7 / 10, "B", [], by simp [stated, Chain.conjunction], rfl,
        by decide⟩
    · exact ⟨⟨.conjunction "B" ["A"], none⟩, 2 / 5, "B", ["A"], by simp [stated, Chain.conjunction],
        rfl, by decide⟩
  have htotal : ∑ outcome ∈ ["A", "B"].toFinset.powerset, w outcome = 1 := by decide +kernel
  have hunknown : stated.filter (fun e => e.2.isNone) =
      [(⟨.join (.single (.event "A")) .or (.event "B"), none⟩, none)] := rfl
  have htarget : Chain.weight ["A", "B"] w (.join (.single (.event "A")) .or (.event "B")) =
      9 / 10 := by
    decide +kernel
  have h := (exists_solveEquations_eq_ok_of_conjunctions hevents (by decide) htotal hunknown
    (by decide) hknown hconjunctions).1
  rw [htarget] at h
  exact h

end Credence
