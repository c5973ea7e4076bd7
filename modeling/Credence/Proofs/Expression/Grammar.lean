import Mathlib
import Credence.Proofs.Expression.Spelling

/-!
# The language of expressions

Reading the tokens of an operand takes a reading past that operand, whatever groups are open around
it. So the tokens that spell an expression are read as that expression, and since a reading keeps
the tokens behind it, no others are. Spellings are unambiguous, and only their last token can be a
probability.
-/

namespace Credence

/-! ## 1. Reading what was spelled -/

theorem Reading.foldlM_append {ts ts' : List Token} {r r' : Reading}
    (h : ts.foldlM Reading.step r = .ok r') :
    (ts ++ ts').foldlM Reading.step r = ts'.foldlM Reading.step r' := by
  rw [List.foldlM_append, h]
  rfl

theorem Reading.step_connective (groups : List Joint) (chain : Chain) (connective : Connective) :
    (Reading.afterOperand groups chain).step connective.token =
      .ok (.atOperand groups (some (chain, connective))) := by
  cases connective <;> rfl

mutual
theorem Operand.foldlM_step (groups : List Joint) (joint : Joint) : (operand : Operand) →
    operand.tokens.foldlM Reading.step (.atOperand groups joint) =
      .ok (.afterOperand groups (joint.attach operand))
  | .event label => rfl
  | .group chain => by
    -- the joint waits outside of the parentheses until the chain in them is complete
    have hchain := chain.foldlM_step (joint :: groups)
    unfold Operand.tokens
    show (chain.tokens ++ [Token.closeParen]).foldlM Reading.step (.atOperand (joint :: groups) none) = _
    rw [Reading.foldlM_append hchain]
    rfl
theorem Chain.foldlM_step (groups : List Joint) : (chain : Chain) →
    chain.tokens.foldlM Reading.step (.atOperand groups none) = .ok (.afterOperand groups chain)
  | .single operand => operand.foldlM_step groups none
  | .join chain connective operand => by
    have hchain := chain.foldlM_step groups
    have hoperand := operand.foldlM_step groups (some (chain, connective))
    unfold Chain.tokens
    rw [Reading.foldlM_append hchain, List.foldlM_cons, Reading.step_connective]
    exact hoperand
end

theorem Expression.parse_tokens (e : Expression) : Expression.parse e.tokens = .ok e := by
  have hchain := e.chain.foldlM_step []
  unfold Expression.parse Expression.tokens Reading.start
  rw [Reading.foldlM_append hchain]
  cases e with
  | mk chain probability =>
    cases probability with
    | none => rfl
    | some p => rfl

theorem Expression.tokens_injective : Function.Injective Expression.tokens := by
  intro e e' h
  have hparse := e.parse_tokens
  rw [h, e'.parse_tokens, Except.ok.injEq] at hparse
  exact hparse.symm

/-! ## 2. The place of a probability -/

mutual
theorem Operand.equals_notMem_tokens (p : Float) : (operand : Operand) →
    Token.equals p ∉ operand.tokens
  | .event label => by simp [Operand.tokens]
  | .group chain => by
    have hchain := chain.equals_notMem_tokens p
    simp [Operand.tokens, hchain]
theorem Chain.equals_notMem_tokens (p : Float) : (chain : Chain) → Token.equals p ∉ chain.tokens
  | .single operand => operand.equals_notMem_tokens p
  | .join chain connective operand => by
    have hchain := chain.equals_notMem_tokens p
    have hoperand := operand.equals_notMem_tokens p
    cases connective <;> simp [Chain.tokens, Connective.token, hchain, hoperand]
end

/-- Only the last token of an expression can be a probability. -/
theorem Expression.eq_of_tokens_eq_append {e : Expression} {before after : List Token} {p : Float}
    (h : e.tokens = before ++ .equals p :: after) :
    before = e.chain.tokens ∧ e.probability = some p ∧ after = [] := by
  have hchain := e.chain.equals_notMem_tokens p
  unfold Expression.tokens at h
  cases hp : e.probability with
  | none =>
    rw [hp, Option.map_none, Option.toList_none, List.append_nil] at h
    rw [h] at hchain
    simp at hchain
  | some q =>
    rw [hp, Option.map_some, Option.toList_some] at h
    -- were anything to come after the probability, it would stand among the tokens of the chain
    cases after using List.reverseRecOn with
    | nil =>
      have heq := List.append_inj' h rfl
      simp only [List.cons.injEq, Token.equals.injEq, and_true] at heq
      rw [heq.1, heq.2]
      exact ⟨rfl, rfl, rfl⟩
    | append_singleton after token =>
      rw [← List.cons_append, ← List.append_assoc] at h
      have heq := (List.append_inj' h rfl).1
      rw [heq] at hchain
      simp at hchain

/-! ## 3. Acceptance -/

theorem Expression.parse_eq_ok_iff (ts : List Token) (e : Expression) :
    Expression.parse ts = .ok e ↔ ts = e.tokens := by
  constructor
  · intro h
    exact (Expression.tokens_of_parse h).symm
  · intro h
    rw [h, e.parse_tokens]

/-- The tokens read as an expression are those that spell it. Every spelling is read, as one
expression only, and everything else is refused. A probability is the last token of its spelling,
and no other one comes before it. -/
theorem Expression.parse_eq_ok_iff_spells (ts : List Token) :
    (∀ e, Expression.parse ts = .ok e ↔ ts = e.tokens) ∧
    (∀ e e' : Expression, ts = e.tokens → ts = e'.tokens → e = e') ∧
    ((¬ ∃ e : Expression, ts = e.tokens) → ∃ error, Expression.parse ts = .error error) ∧
    ∀ e : Expression, ts = e.tokens → ∀ before p after, ts = before ++ .equals p :: after →
      e.probability = some p ∧ after = [] ∧ ∀ q, Token.equals q ∉ before := by
  refine ⟨Expression.parse_eq_ok_iff ts, ?_, ?_, ?_⟩
  · intro e e' h h'
    apply Expression.tokens_injective
    rw [← h, h']
  · intro hnone
    cases hparse : Expression.parse ts with
    | error error => exact ⟨error, rfl⟩
    | ok e => exact absurd ⟨e, (Expression.parse_eq_ok_iff ts e).mp hparse⟩ hnone
  · intro e h before p after heq
    rw [h] at heq
    have hplace := Expression.eq_of_tokens_eq_append heq
    refine ⟨hplace.2.1, hplace.2.2, fun q => ?_⟩
    rw [hplace.1]
    exact e.chain.equals_notMem_tokens q

end Credence
