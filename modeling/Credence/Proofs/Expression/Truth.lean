import Mathlib
import Credence.Expression

/-!
# What expressions say

The truth value of a chain when each simple event occurs or not. Since no connective negates, a
chain stays true when more events occur; it is false when none occurs and true when all do.
-/

namespace Credence

def Connective.truth : Connective → Bool → Bool → Bool
  | .and => (· && ·)
  | .or => (· || ·)

mutual
def Operand.holds (occurs : String → Bool) : Operand → Bool
  | .event label => occurs label
  | .group chain => chain.holds occurs
/-- The operands are joined from left to right, and a group counts as its own value. -/
def Chain.holds (occurs : String → Bool) : Chain → Bool
  | .single operand => operand.holds occurs
  | .join chain connective operand =>
    connective.truth (chain.holds occurs) (operand.holds occurs)
end

mutual
def Operand.labels : Operand → List String
  | .event label => [label]
  | .group chain => chain.labels
def Chain.labels : Chain → List String
  | .single operand => operand.labels
  | .join chain _ operand => chain.labels ++ operand.labels
end

/-! ## 1. Dependence on the labels -/

mutual
theorem Operand.holds_congr {occurs occurs' : String → Bool} : (operand : Operand) →
    (∀ label ∈ operand.labels, occurs label = occurs' label) →
    operand.holds occurs = operand.holds occurs'
  | .event label, h => h label (List.mem_singleton_self label)
  | .group chain, h => chain.holds_congr h
theorem Chain.holds_congr {occurs occurs' : String → Bool} : (chain : Chain) →
    (∀ label ∈ chain.labels, occurs label = occurs' label) →
    chain.holds occurs = chain.holds occurs'
  | .single operand, h => operand.holds_congr h
  | .join chain connective operand, h => by
    rw [Chain.holds, Chain.holds,
      chain.holds_congr fun label hlabel => h label (List.mem_append_left _ hlabel),
      operand.holds_congr fun label hlabel => h label (List.mem_append_right _ hlabel)]
end

/-! ## 2. Monotonicity -/

theorem Connective.truth_mono {connective : Connective} {p p' q q' : Bool}
    (hp : p = true → p' = true) (hq : q = true → q' = true)
    (h : connective.truth p q = true) : connective.truth p' q' = true := by
  cases connective with
  | and =>
    simp only [truth, Bool.and_eq_true] at h ⊢
    exact ⟨hp h.1, hq h.2⟩
  | or =>
    simp only [truth, Bool.or_eq_true] at h ⊢
    exact h.imp hp hq

theorem Connective.truth_self (connective : Connective) (p : Bool) :
    connective.truth p p = p := by
  cases connective with
  | and => exact Bool.and_self p
  | or => exact Bool.or_self p

mutual
theorem Operand.holds_mono {occurs occurs' : String → Bool}
    (hle : ∀ label, occurs label = true → occurs' label = true) :
    (operand : Operand) → operand.holds occurs = true → operand.holds occurs' = true
  | .event label, h => hle label h
  | .group chain, h => chain.holds_mono hle h
theorem Chain.holds_mono {occurs occurs' : String → Bool}
    (hle : ∀ label, occurs label = true → occurs' label = true) :
    (chain : Chain) → chain.holds occurs = true → chain.holds occurs' = true
  | .single operand, h => operand.holds_mono hle h
  | .join chain _ operand, h =>
    Connective.truth_mono (chain.holds_mono hle) (operand.holds_mono hle) h
end

mutual
theorem Operand.holds_const (p : Bool) : (operand : Operand) → operand.holds (fun _ => p) = p
  | .event _ => rfl
  | .group chain => chain.holds_const p
theorem Chain.holds_const (p : Bool) : (chain : Chain) → chain.holds (fun _ => p) = p
  | .single operand => operand.holds_const p
  | .join chain connective operand => by
    rw [Chain.holds, chain.holds_const p, operand.holds_const p, connective.truth_self]
end

theorem Chain.holds_eq_of_forall {occurs : String → Bool} {p : Bool} {chain : Chain}
    (h : ∀ label ∈ chain.labels, occurs label = p) : chain.holds occurs = p :=
  (chain.holds_congr h).trans (chain.holds_const p)

end Credence
