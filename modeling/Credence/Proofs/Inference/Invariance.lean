import Mathlib
import Credence.Proofs.Inference.Exactness

/-!
# What an inference does not depend on

Over exact numbers and without tolerance an inference comes to what the known probabilities say about
the weights of the outcomes. Events that no expression mentions do not matter: weights over more
events have a marginal over fewer, and weights over fewer events can be extended by events that never
occur. Nor does the order of the events and of the expressions matter, as sums and conditions have
none.
-/

namespace Credence

/-! ## 1. Fixed probabilities -/

/-- The known probabilities agree with some weights, and all weights that they agree with give the
chain this probability. -/
structure Fixes (events : List String) (expressions : List Expression) (chain : Chain) (p : ℚ) :
    Prop where
  agrees : ∃ w, Agrees events expressions w
  weight_eq : ∀ w, Agrees events expressions w → chain.weight events w = p

theorem Fixes.unique {events : List String} {expressions : List Expression} {chain : Chain}
    {p q : ℚ} (hp : Fixes events expressions chain p) (hq : Fixes events expressions chain q) :
    p = q := by
  obtain ⟨w, hw⟩ := hp.agrees
  rw [← hp.weight_eq w hw, hq.weight_eq w hw]

namespace Inference

/-- The texts write the expressions over events that span a space, and only the target has no
probability. -/
structure Asks (events texts : List String) (expressions : List Expression) (target : Expression) :
    Prop where
  spans : ∃ space, SampleSpace.span events = .ok space
  reads : Reads events texts expressions
  unknown : expressions.filter Expression.isUnknown = [target]

section Asks

variable {events texts : List String} {expressions : List Expression} {target : Expression}
  (h : Asks events texts expressions target)

include h

theorem Asks.exists_spans : ∃ space, SampleSpace.Spans events space := by
  obtain ⟨space, hspan⟩ := h.spans
  exact ⟨space, SampleSpace.span_eq_ok_iff.mp hspan⟩

theorem Asks.label_mem {e : Expression} (he : e ∈ expressions) {label : String}
    (hlabel : label ∈ e.chain.labels) : label ∈ events :=
  Reads.label_mem h.reads he hlabel

theorem Asks.target_mem : target ∈ expressions := by
  have hmem : target ∈ expressions.filter Expression.isUnknown := by
    rw [h.unknown]
    exact List.mem_singleton_self target
  exact (List.mem_filter.mp hmem).1

theorem Asks.infer_cases {config : Config ℚ} (hconfig : config.tolerance = 0) :
    (∃ p, infer config events texts = .ok p ∧ Fixes events expressions target.chain p) ∨
    (infer config events texts = .error (.refused (.system .underdetermined)) ∧
      ∀ p, ¬ Fixes events expressions target.chain p) := by
  obtain ⟨space, hspans⟩ := h.exists_spans
  have hdetermines (p : ℚ) : Determines (2 ^ events.length) (equationsOf events expressions)
      (truthTable events target.chain) p ↔ Fixes events expressions target.chain p := by
    rw [determines_iff hspans.usable.nodup (fun e he label hlabel => h.label_mem he hlabel)
      h.target_mem]
    exact ⟨fun hp => ⟨hp.1, hp.2⟩, fun hp => ⟨hp.agrees, hp.weight_eq⟩⟩
  obtain ⟨hok, herror⟩ := Inference.infer_cases hspans h.reads h.unknown hconfig
  simp only [hdetermines] at hok herror
  by_cases hfixes : ∃ p, Fixes events expressions target.chain p
  · obtain ⟨p, hp⟩ := hfixes
    exact .inl ⟨p, (hok p).mpr hp, hp⟩
  · have hnot : ∀ p, ¬ Fixes events expressions target.chain p := fun p hp => hfixes ⟨p, hp⟩
    exact .inr ⟨herror hnot, hnot⟩

/-- Two inferences come to the same if the same probabilities are fixed. -/
theorem Asks.infer_eq {events' texts' : List String} {expressions' : List Expression}
    {target' : Expression} (h' : Asks events' texts' expressions' target')
    (hfixes : ∀ p, Fixes events expressions target.chain p ↔
      Fixes events' expressions' target'.chain p)
    {config : Config ℚ} (hconfig : config.tolerance = 0) :
    (∃ p, infer config events texts = .ok p ∧ infer config events' texts' = .ok p) ∨
    (infer config events texts = .error (.refused (.system .underdetermined)) ∧
      infer config events' texts' = .error (.refused (.system .underdetermined))) := by
  obtain ⟨p, hp, hpfix⟩ | ⟨hunder, hnot⟩ := h.infer_cases hconfig
  · obtain ⟨p', hp', hpfix'⟩ | ⟨-, hnot'⟩ := h'.infer_cases hconfig
    · rw [← ((hfixes p).mp hpfix).unique hpfix'] at hp'
      exact .inl ⟨p, hp, hp'⟩
    · exact absurd ((hfixes p).mp hpfix) (hnot' p)
  · obtain ⟨p', -, hpfix'⟩ | ⟨hunder', -⟩ := h'.infer_cases hconfig
    · exact absurd ((hfixes p').mpr hpfix') (hnot p')
    · exact .inr ⟨hunder, hunder'⟩

end Asks

end Inference

/-! ## 2. More events -/

/-- The weights of outcomes over some of the events, whatever becomes of the others. -/
def marginal (events events' : List String) (w : Finset String → ℚ) (outcome : Finset String) : ℚ :=
  ∑ outcome' ∈ events'.toFinset.powerset with outcome' ∩ events.toFinset = outcome, w outcome'

/-- The weights of outcomes over more events, of which the new ones never occur. -/
def extension (events : List String) (w : Finset String → ℚ) (outcome : Finset String) : ℚ :=
  if outcome ⊆ events.toFinset then w outcome else 0

section Subset

variable {events events' : List String}

theorem sum_marginal (value : Finset String → Bool) (w : Finset String → ℚ) :
    ∑ outcome ∈ events.toFinset.powerset with value outcome = true,
        marginal events events' w outcome =
      ∑ outcome' ∈ events'.toFinset.powerset with value (outcome' ∩ events.toFinset) = true,
        w outcome' := by
  have hmaps : ∀ outcome' ∈ events'.toFinset.powerset,
      outcome' ∩ events.toFinset ∈ events.toFinset.powerset :=
    fun _ _ => Finset.mem_powerset.mpr Finset.inter_subset_right
  rw [Finset.sum_filter, Finset.sum_filter, ← Finset.sum_fiberwise_of_maps_to hmaps]
  apply Finset.sum_congr rfl
  intro outcome _
  -- the value is the same for all outcomes with this one as their part
  have hvalue : ∀ outcome' ∈ events'.toFinset.powerset.filter (· ∩ events.toFinset = outcome),
      (if value (outcome' ∩ events.toFinset) = true then w outcome' else 0) =
        if value outcome = true then w outcome' else 0 := by
    intro outcome' houtcome'
    rw [(Finset.mem_filter.mp houtcome').2]
  rw [Finset.sum_congr rfl hvalue]
  by_cases hholds : value outcome = true
  · simp only [if_pos hholds]
    rfl
  · simp only [if_neg hholds, Finset.sum_const_zero]

theorem sum_extension (hsubset : events ⊆ events') (value : Finset String → Bool)
    (w : Finset String → ℚ) :
    ∑ outcome ∈ events'.toFinset.powerset with value outcome = true, extension events w outcome =
      ∑ outcome ∈ events.toFinset.powerset with value outcome = true, w outcome := by
  have hmono : events.toFinset ⊆ events'.toFinset :=
    fun _ hlabel => List.mem_toFinset.mpr (hsubset (List.mem_toFinset.mp hlabel))
  simp only [extension]
  rw [← Finset.sum_filter, Finset.filter_filter]
  apply Finset.sum_congr _ fun _ _ => rfl
  ext outcome
  rw [Finset.mem_filter, Finset.mem_filter, Finset.mem_powerset, Finset.mem_powerset]
  constructor
  · intro h
    exact ⟨h.2.2, h.2.1⟩
  · intro h
    exact ⟨h.1.trans hmono, h.2, h.1⟩

theorem Chain.weight_marginal {chain : Chain} (hlabels : ∀ label ∈ chain.labels, label ∈ events)
    (w : Finset String → ℚ) :
    chain.weight events (marginal events events' w) = chain.weight events' w := by
  have hholds (outcome : Finset String) :
      chain.holds (fun label => label ∈ outcome ∩ events.toFinset) =
        chain.holds (fun label => label ∈ outcome) := by
    apply chain.holds_congr
    intro label hlabel
    have hmem : label ∈ events.toFinset := List.mem_toFinset.mpr (hlabels label hlabel)
    rw [decide_eq_decide, Finset.mem_inter]
    exact and_iff_left hmem
  unfold Chain.weight
  rw [sum_marginal fun outcome => chain.holds fun label => label ∈ outcome]
  simp only [hholds]

theorem Chain.weight_extension (hsubset : events ⊆ events') (chain : Chain)
    (w : Finset String → ℚ) :
    chain.weight events' (extension events w) = chain.weight events w :=
  sum_extension hsubset (fun outcome => chain.holds fun label => label ∈ outcome) w

variable {expressions : List Expression} {w : Finset String → ℚ}

theorem Agrees.marginal (h : Agrees events' expressions w)
    (hlabels : ∀ e ∈ expressions, ∀ label ∈ e.chain.labels, label ∈ events) :
    Agrees events expressions (marginal events events' w) where
  total := by
    have hsum := @sum_marginal events events' (fun _ => true) w
    simp only [Finset.filter_true] at hsum
    rw [hsum, h.total]
  known := by
    intro e he q hq
    rw [Chain.weight_marginal (hlabels e he), h.known e he q hq]

theorem Agrees.extension (h : Agrees events expressions w) (hsubset : events ⊆ events') :
    Agrees events' expressions (extension events w) where
  total := by
    have hsum := sum_extension hsubset (fun _ => true) w
    simp only [Finset.filter_true] at hsum
    rw [hsum, h.total]
  known := by
    intro e he q hq
    rw [Chain.weight_extension hsubset, h.known e he q hq]

theorem fixes_iff_of_subset (hsubset : events ⊆ events')
    (hlabels : ∀ e ∈ expressions, ∀ label ∈ e.chain.labels, label ∈ events) {chain : Chain}
    (hchain : ∀ label ∈ chain.labels, label ∈ events) (p : ℚ) :
    Fixes events expressions chain p ↔ Fixes events' expressions chain p := by
  constructor
  -- weights over more events are put to the test by their marginals
  · intro h
    obtain ⟨w, hw⟩ := h.agrees
    refine ⟨⟨_, hw.extension hsubset⟩, fun w' hw' => ?_⟩
    rw [← Chain.weight_marginal hchain]
    exact h.weight_eq _ (hw'.marginal hlabels)
  -- and weights over fewer events by their extensions
  · intro h
    obtain ⟨w', hw'⟩ := h.agrees
    refine ⟨⟨_, hw'.marginal hlabels⟩, fun w hw => ?_⟩
    rw [← Chain.weight_extension hsubset]
    exact h.weight_eq _ (hw.extension hsubset)

end Subset

/-! ## 3. Another order -/

theorem Agrees.of_perm {events : List String} {expressions expressions' : List Expression}
    {w : Finset String → ℚ} (h : Agrees events expressions w)
    (hperm : expressions.Perm expressions') : Agrees events expressions' w where
  total := h.total
  known := fun e he => h.known e (hperm.mem_iff.mpr he)

theorem Fixes.of_perm {events : List String} {expressions expressions' : List Expression}
    {chain : Chain} {p : ℚ} (h : Fixes events expressions chain p)
    (hperm : expressions.Perm expressions') : Fixes events expressions' chain p := by
  obtain ⟨w, hw⟩ := h.agrees
  exact ⟨⟨w, hw.of_perm hperm⟩, fun w' hw' => h.weight_eq w' (hw'.of_perm hperm.symm)⟩

theorem fixes_iff_of_perm {events : List String} {expressions expressions' : List Expression}
    (hperm : expressions.Perm expressions') (chain : Chain) (p : ℚ) :
    Fixes events expressions chain p ↔ Fixes events expressions' chain p :=
  ⟨fun h => h.of_perm hperm, fun h => h.of_perm hperm.symm⟩

/-! ## 4. The same answer -/

namespace Inference

variable {events events' texts texts' : List String} {expressions : List Expression}
  {target : Expression}

theorem Asks.of_subset (h : Asks events texts expressions target)
    (hspans : ∃ space, SampleSpace.span events' = .ok space) (hsubset : events ⊆ events') :
    Asks events' texts expressions target where
  spans := hspans
  reads := h.reads.imp fun _ _ hread => Expression.read_eq_ok_of_subset hsubset hread
  unknown := h.unknown

theorem Asks.exists_of_perm (h : Asks events texts expressions target)
    (hperm : texts.Perm texts') :
    ∃ expressions', Asks events texts' expressions' target ∧ expressions.Perm expressions' := by
  obtain ⟨expressions', hreads, hperm'⟩ := List.perm_comp_forall₂ hperm.symm h.reads
  refine ⟨expressions', ⟨h.spans, hreads, ?_⟩, hperm'.symm⟩
  have hfilter := hperm'.filter Expression.isUnknown
  rw [h.unknown] at hfilter
  exact List.perm_singleton.mp hfilter

def overlappingTexts : List String := ["A = 0.5", "B = 0.25", "A and B = 0.125", "A or B"]

def overlapping : List Expression :=
  [⟨.single (.event "A"), some 0.5⟩, ⟨.single (.event "B"), some 0.25⟩,
    ⟨.join (.single (.event "A")) .and (.event "B"), some 0.125⟩,
    ⟨.join (.single (.event "A")) .or (.event "B"), none⟩]

theorem asks_overlapping : Asks ["A", "B"] overlappingTexts overlapping
    ⟨.join (.single (.event "A")) .or (.event "B"), none⟩ where
  spans := ⟨_, rfl⟩
  reads := .cons (by decide +kernel) (.cons (by decide +kernel) (.cons (by decide +kernel)
    (.cons (by decide +kernel) .nil)))
  unknown := rfl

theorem infer_overlapping :
    infer (⟨0, le_rfl⟩ : Config ℚ) ["A", "B"] overlappingTexts = .ok (5 / 8) := by
  decide +kernel

end Inference

/-- Declaring more events is harmless, wherever they stand among the others. -/
theorem infer_eq_of_subset {events events' texts : List String} {expressions : List Expression}
    {target : Expression} (h : Inference.Asks events texts expressions target) {space : SampleSpace}
    (hspan : SampleSpace.span events' = .ok space) (hsubset : events ⊆ events')
    {config : Config ℚ} (hconfig : config.tolerance = 0) :
    (∃ p, infer config events texts = .ok p ∧ infer config events' texts = .ok p) ∨
    (infer config events texts = .error (.refused (.system .underdetermined)) ∧
      infer config events' texts = .error (.refused (.system .underdetermined))) := by
  apply h.infer_eq (h.of_subset ⟨space, hspan⟩ hsubset) _ hconfig
  intro p
  exact fixes_iff_of_subset hsubset (fun _ he _ hlabel => h.label_mem he hlabel)
    (fun _ hlabel => h.label_mem h.target_mem hlabel) p

theorem infer_eq_of_subset_two_more :
    infer (⟨0, le_rfl⟩ : Config ℚ) ["C", "A", "D", "B"] Inference.overlappingTexts =
      .ok (5 / 8) := by
  obtain ⟨space, hspans⟩ := SampleSpace.exists_spans
    (show SampleSpace.Usable ["C", "A", "D", "B"] from
      ⟨by decide, by decide, by decide, by decide⟩) (by decide)
  have hsubset : ["A", "B"] ⊆ ["C", "A", "D", "B"] := by decide
  obtain ⟨p, hp, hp'⟩ | ⟨hunder, -⟩ := infer_eq_of_subset Inference.asks_overlapping
    (SampleSpace.span_eq_ok_iff.mpr hspans) hsubset
    (show (⟨0, le_rfl⟩ : Config ℚ).tolerance = 0 from rfl)
  · rw [Inference.infer_overlapping] at hp
    cases hp
    exact hp'
  · rw [Inference.infer_overlapping] at hunder
    cases hunder

/-- The order of the events does not matter, nor does that of the expressions. -/
theorem infer_eq_of_perm {events events' texts texts' : List String}
    {expressions : List Expression} {target : Expression}
    (h : Inference.Asks events texts expressions target) (hevents : events.Perm events')
    (htexts : texts.Perm texts') {config : Config ℚ} (hconfig : config.tolerance = 0) :
    (∃ p, infer config events texts = .ok p ∧ infer config events' texts' = .ok p) ∨
    (infer config events texts = .error (.refused (.system .underdetermined)) ∧
      infer config events' texts' = .error (.refused (.system .underdetermined))) := by
  -- the events first, as a list of the same ones, then the texts
  obtain ⟨space, hspans⟩ := h.exists_spans
  obtain ⟨space', hspans'⟩ := SampleSpace.exists_spans_of_perm hspans hevents
  have h₁ := h.of_subset ⟨space', SampleSpace.span_eq_ok_iff.mpr hspans'⟩ hevents.subset
  obtain ⟨expressions', h₂, hperm⟩ := h₁.exists_of_perm htexts
  apply h.infer_eq h₂ _ hconfig
  intro p
  have hsubset := fixes_iff_of_subset hevents.subset (fun _ he _ hlabel => h.label_mem he hlabel)
    (fun _ hlabel => h.label_mem h.target_mem hlabel) p
  exact hsubset.trans (fixes_iff_of_perm hperm target.chain p)

theorem infer_eq_of_perm_reversed :
    infer (⟨0, le_rfl⟩ : Config ℚ) ["B", "A"]
      ["A or B", "A and B = 0.125", "B = 0.25", "A = 0.5"] = .ok (5 / 8) := by
  have htexts : Inference.overlappingTexts.Perm
      ["A or B", "A and B = 0.125", "B = 0.25", "A = 0.5"] :=
    (List.reverse_perm Inference.overlappingTexts).symm
  obtain ⟨p, hp, hp'⟩ | ⟨hunder, -⟩ := infer_eq_of_perm Inference.asks_overlapping
    (.swap "B" "A" []) htexts (show (⟨0, le_rfl⟩ : Config ℚ).tolerance = 0 from rfl)
  · rw [Inference.infer_overlapping] at hp
    cases hp
    exact hp'
  · rw [Inference.infer_overlapping] at hunder
    cases hunder

end Credence
