import Mathlib
import Credence.Proofs.Coverage
import Credence.Proofs.Inference.Equations

/-!
# Outcomes

An outcome is the set of events that occur. The cells of a sample space stand for the outcomes one
by one, so weights of outcomes are solutions of equations: outcomes agree with the known
probabilities exactly when the weights of their cells solve the equations of the expressions.
-/

namespace Credence

/-! ## 1. Weights of outcomes -/

/-- The weight of all outcomes over the events in which a chain holds. -/
def Chain.weight (events : List String) (w : Finset String → ℚ) (chain : Chain) : ℚ :=
  ∑ outcome ∈ events.toFinset.powerset with chain.holds (fun label => label ∈ outcome) = true,
    w outcome

/-- Weights of the outcomes that sum to one and give each known expression its probability. -/
structure Agrees (events : List String) (expressions : List Expression)
    (w : Finset String → ℚ) : Prop where
  total : ∑ outcome ∈ events.toFinset.powerset, w outcome = 1
  known : ∀ e ∈ expressions, ∀ q, e.probability = some q →
    e.chain.weight events w = Scalar.ofFloat q

/-! ## 2. Cells and outcomes -/

/-- The outcome that cell number `i` stands for. -/
def outcomeOf (events : List String) (i : ℕ) : Finset String :=
  events.toFinset.filter fun label => occursIn events i label = true

theorem mem_outcomeOf {events : List String} {i : ℕ} {label : String} (h : label ∈ events) :
    label ∈ outcomeOf events i ↔ occursIn events i label = true := by
  rw [outcomeOf, Finset.mem_filter, List.mem_toFinset]
  exact and_iff_right h

theorem holds_outcomeOf {events : List String} {chain : Chain}
    (h : ∀ label ∈ chain.labels, label ∈ events) (i : ℕ) :
    chain.holds (fun label => label ∈ outcomeOf events i) = chain.holds (occursIn events i) := by
  apply chain.holds_congr
  intro label hlabel
  rw [Bool.eq_iff_iff, decide_eq_true_iff, mem_outcomeOf (h label hlabel)]

/-- The known probability as an exact number. -/
def Expression.exact (e : Expression) : Option ℚ := e.probability.map Scalar.ofFloat

/-- The equations of the expressions whose probability is known. -/
def equationsOf (events : List String) (expressions : List Expression) : List (Bits × ℚ) :=
  expressions.filterMap fun e => e.exact.map (truthTable events e.chain, ·)

section Nodup

variable {events : List String} (hnodup : events.Nodup)

include hnodup

theorem outcomeOf_injective :
    Function.Injective fun i : Fin (2 ^ events.length) => outcomeOf events i := by
  intro i j h
  apply Fin.ext
  apply Nat.eq_of_testBit_eq
  intro k
  by_cases hk : k < events.length
  · -- bit `k` is whether the event at that position occurs
    have hmem : events[k] ∈ events := List.getElem_mem hk
    have hidx : events.idxOf events[k] = k := hnodup.idxOf_getElem k hk
    have hiff := (mem_outcomeOf (i := i) hmem).symm.trans
      ((Finset.ext_iff.mp h events[k]).trans (mem_outcomeOf (i := j) hmem))
    rw [occursIn, occursIn, hidx] at hiff
    exact Bool.eq_iff_iff.mpr hiff
  · have hpow : 2 ^ events.length ≤ 2 ^ k := Nat.pow_le_pow_right (by omega) (by omega)
    rw [Nat.testBit_lt_two_pow (i.isLt.trans_le hpow), Nat.testBit_lt_two_pow (j.isLt.trans_le hpow)]

theorem image_outcomeOf :
    (Finset.univ.image fun i : Fin (2 ^ events.length) => outcomeOf events i) =
      events.toFinset.powerset := by
  -- there are as many cells as outcomes
  apply Finset.eq_of_subset_of_card_le
  · intro outcome h
    obtain ⟨i, -, rfl⟩ := Finset.mem_image.mp h
    exact Finset.mem_powerset.mpr (Finset.filter_subset _ _)
  · rw [Finset.card_image_of_injective _ (outcomeOf_injective hnodup), Finset.card_univ,
      Fintype.card_fin, Finset.card_powerset, List.toFinset_card_of_nodup hnodup]

theorem sum_outcomes (f : Finset String → ℚ) :
    ∑ outcome ∈ events.toFinset.powerset, f outcome =
      ∑ i : Fin (2 ^ events.length), f (outcomeOf events i) := by
  rw [← image_outcomeOf hnodup, Finset.sum_image fun i _ j _ h => outcomeOf_injective hnodup h]

theorem Chain.weight_eq {chain : Chain} (h : ∀ label ∈ chain.labels, label ∈ events)
    (w : Finset String → ℚ) :
    chain.weight events w =
      (truthTable events chain).weight
        fun i : Fin (2 ^ events.length) => w (outcomeOf events i) := by
  rw [Chain.weight, Finset.sum_filter, sum_outcomes hnodup, Bits.weight]
  apply Finset.sum_congr rfl
  intro i _
  rw [holds_outcomeOf h, (tabulates_truthTable events chain).contains_eq i i.isLt]

theorem exists_weights (x : Fin (2 ^ events.length) → ℚ) :
    ∃ w : Finset String → ℚ, (fun i : Fin (2 ^ events.length) => w (outcomeOf events i)) = x :=
  ⟨Function.extend (fun i : Fin (2 ^ events.length) => outcomeOf events i) x 0,
    funext fun i => (outcomeOf_injective hnodup).extend_apply x 0 i⟩

/-! ## 3. Outcomes and equations -/

/-- Weights of the outcomes solve the equations of chains, some of them with a probability, when
they sum to one and give each of those its probability. -/
theorem solves_outcomes_iff {β : Type} {chain : β → Chain} (probability : β → Option ℚ)
    {xs : List β} (hlabels : ∀ x ∈ xs, ∀ label ∈ (chain x).labels, label ∈ events)
    (w : Finset String → ℚ) :
    Solves (xs.filterMap fun x => (probability x).map (truthTable events (chain x), ·))
        (fun i : Fin (2 ^ events.length) => w (outcomeOf events i)) ↔
      ∑ outcome ∈ events.toFinset.powerset, w outcome = 1 ∧
        ∀ x ∈ xs, ∀ q, probability x = some q → (chain x).weight events w = q := by
  rw [Solves, ← sum_outcomes hnodup w]
  apply and_congr_right
  intro _
  constructor
  · intro h x hx q hq
    rw [Chain.weight_eq hnodup (hlabels x hx)]
    apply h (truthTable events (chain x), q)
    rw [List.mem_filterMap]
    exact ⟨x, hx, by rw [hq]; rfl⟩
  · intro h equation hequation
    obtain ⟨x, hx, hmap⟩ := List.mem_filterMap.mp hequation
    obtain ⟨q, hq, rfl⟩ := Option.map_eq_some_iff.mp hmap
    rw [← Chain.weight_eq hnodup (hlabels x hx)]
    exact h x hx q hq

variable {expressions : List Expression}
  (hlabels : ∀ e ∈ expressions, ∀ label ∈ e.chain.labels, label ∈ events)

include hlabels

theorem agrees_iff_solves (w : Finset String → ℚ) :
    Agrees events expressions w ↔
      Solves (equationsOf events expressions)
        fun i : Fin (2 ^ events.length) => w (outcomeOf events i) := by
  have hexact (e : Expression) (q : ℚ) :
      e.exact = some q ↔ ∃ p, e.probability = some p ∧ Scalar.ofFloat p = q :=
    Option.map_eq_some_iff
  rw [equationsOf, solves_outcomes_iff hnodup Expression.exact hlabels]
  constructor
  · intro h
    refine ⟨h.total, fun e he q hq => ?_⟩
    obtain ⟨p, hp, rfl⟩ := (hexact e q).mp hq
    exact h.known e he p hp
  · intro h
    exact ⟨h.1, fun e he p hp => h.2 e he _ ((hexact e _).mpr ⟨p, hp, rfl⟩)⟩

theorem determines_iff {target : Expression} (htarget : target ∈ expressions) (p : ℚ) :
    Determines (2 ^ events.length) (equationsOf events expressions)
        (truthTable events target.chain) p ↔
      (∃ w, Agrees events expressions w) ∧
        ∀ w, Agrees events expressions w → target.chain.weight events w = p := by
  constructor
  · intro h
    refine ⟨?_, fun w hw => ?_⟩
    -- any solution comes from weights of the outcomes
    · obtain ⟨x, hx⟩ := h.solvable
      obtain ⟨w, rfl⟩ := exists_weights hnodup x
      exact ⟨w, (agrees_iff_solves hnodup hlabels w).mpr hx⟩
    · rw [Chain.weight_eq hnodup (hlabels target htarget)]
      exact h.agree _ ((agrees_iff_solves hnodup hlabels w).mp hw)
  · rintro ⟨⟨w, hw⟩, hall⟩
    refine ⟨⟨_, (agrees_iff_solves hnodup hlabels w).mp hw⟩, fun x hx => ?_⟩
    obtain ⟨v, rfl⟩ := exists_weights hnodup x
    rw [← Chain.weight_eq hnodup (hlabels target htarget)]
    exact hall v ((agrees_iff_solves hnodup hlabels v).mpr hx)

end Nodup

end Credence
