import Mathlib
import Credence.Expression.Parser
import Credence.Proofs.Expression.Truth
import Credence.Proofs.Token.Lexer

/-!
# What has been read

The tokens read so far can be told from the state of the reading: those of the groups still open,
and those of what stands in the innermost one. So an expression spells the tokens it was read from,
and it mentions no label that the lexer did not find among the events.
-/

namespace Credence

/-! ## 1. The tokens behind a reading -/

def Joint.tokens : Joint → List Token
  | none => []
  | some (chain, connective) => chain.tokens ++ [connective.token]

theorem Joint.tokens_attach (joint : Joint) (operand : Operand) :
    (joint.attach operand).tokens = joint.tokens ++ operand.tokens := by
  cases joint with
  | none => rfl
  | some before =>
    rw [attach, Chain.tokens, tokens, List.append_assoc]
    rfl

theorem Expression.tokens_of_none (chain : Chain) :
    Expression.tokens ⟨chain, none⟩ = chain.tokens := by
  unfold Expression.tokens
  rw [Option.map_none, Option.toList_none, List.append_nil]

namespace Reading

/-- The tokens in front of the innermost open group, its parenthesis included. -/
def openTokens : List Joint → List Token
  | [] => []
  | joint :: groups => openTokens groups ++ (joint.tokens ++ [.openParen])

def tokens : Reading → List Token
  | .atOperand groups joint => openTokens groups ++ joint.tokens
  | .afterOperand groups chain => openTokens groups ++ chain.tokens
  | .atEnd chain probability => chain.tokens ++ [.equals probability]

theorem tokens_step {r r' : Reading} {token : Token} (h : r.step token = .ok r') :
    r'.tokens = r.tokens ++ [token] := by
  unfold step at h
  split at h
  case h_1 groups joint label =>
    cases h
    rw [tokens, tokens, Joint.tokens_attach, Operand.tokens, List.append_assoc]
  case h_2 groups joint =>
    cases h
    rw [tokens, tokens, openTokens, Joint.tokens, List.append_nil, List.append_assoc]
  case h_4 groups chain =>
    cases h
    rw [tokens, tokens, Joint.tokens, Connective.token, List.append_assoc]
  case h_5 groups chain =>
    cases h
    rw [tokens, tokens, Joint.tokens, Connective.token, List.append_assoc]
  -- a closing parenthesis completes the innermost group
  case h_6 joint groups chain =>
    cases h
    simp only [tokens, openTokens, Joint.tokens_attach, Operand.tokens, List.append_assoc,
      List.cons_append, List.nil_append]
  case h_8 chain probability =>
    cases h
    rw [tokens, tokens, openTokens, List.nil_append]
  -- in all other cases the token is refused
  all_goals cases h

theorem tokens_foldlM_step {r r' : Reading} {ts : List Token} (h : ts.foldlM step r = .ok r') :
    r'.tokens = r.tokens ++ ts := by
  induction ts generalizing r with
  | nil =>
    cases h
    rw [List.append_nil]
  | cons token ts ih =>
    rw [List.foldlM_cons] at h
    cases hstep : r.step token with
    | error e =>
      rw [hstep] at h
      cases h
    | ok r₁ =>
      rw [hstep] at h
      rw [ih h, tokens_step hstep, List.append_assoc, List.singleton_append]

theorem tokens_finish {r : Reading} {e : Expression} (h : r.finish = .ok e) :
    e.tokens = r.tokens := by
  unfold finish at h
  split at h
  case h_3 chain =>
    cases h
    rw [Expression.tokens_of_none, tokens, openTokens, List.nil_append]
  case h_4 chain probability =>
    cases h
    rfl
  all_goals cases h

end Reading

theorem Expression.tokens_of_parse {ts : List Token} {e : Expression}
    (h : Expression.parse ts = .ok e) : e.tokens = ts := by
  rw [Expression.parse] at h
  cases hfold : ts.foldlM Reading.step Reading.start with
  | error err =>
    rw [hfold] at h
    cases h
  | ok r =>
    rw [hfold] at h
    rw [Reading.tokens_finish h, Reading.tokens_foldlM_step hfold]
    rfl

/-! ## 2. Labels -/

mutual
theorem Operand.mem_labels_iff {label : String} : (operand : Operand) →
    (label ∈ operand.labels ↔ Token.event label ∈ operand.tokens)
  | .event label' => by simp [Operand.labels, Operand.tokens]
  | .group chain => by
    rw [Operand.labels, Operand.tokens, chain.mem_labels_iff]
    simp
theorem Chain.mem_labels_iff {label : String} : (chain : Chain) →
    (label ∈ chain.labels ↔ Token.event label ∈ chain.tokens)
  | .single operand => operand.mem_labels_iff
  | .join chain connective operand => by
    rw [Chain.labels, Chain.tokens, List.mem_append, List.mem_append, List.mem_cons,
      chain.mem_labels_iff, operand.mem_labels_iff]
    cases connective <;> simp [Connective.token]
end

/-! ## 3. Texts -/

theorem Expression.read_eq_ok_iff {text : String} {events : List String} {e : Expression} :
    Expression.read text events = .ok e ↔
      ∃ ts, lex text events = .ok ts ∧ Expression.parse ts = .ok e := by
  rw [Expression.read]
  cases hlex : lex text events with
  | error err =>
    constructor
    · intro h
      cases h
    · rintro ⟨ts, h, -⟩
      cases h
  | ok ts =>
    show (Expression.parse ts).mapError ExpressionError.grammar = .ok e ↔ _
    cases hparse : Expression.parse ts with
    | error err =>
      constructor
      · intro h
        cases h
      · rintro ⟨_, h, hp⟩
        cases h
        rw [hparse] at hp
        cases hp
    | ok e' =>
      constructor
      · intro h
        cases h
        exact ⟨ts, rfl, hparse⟩
      · rintro ⟨_, h, hp⟩
        cases h
        rw [hparse] at hp
        cases hp
        rfl

/-- Reading undoes spelling, and finds no labels but declared ones. -/
theorem Expression.lex_eq_of_read {text : String} {events : List String} {e : Expression}
    (h : Expression.read text events = .ok e) : lex text events = .ok e.tokens := by
  obtain ⟨ts, hlex, hparse⟩ := read_eq_ok_iff.mp h
  rw [hlex, tokens_of_parse hparse]

theorem Expression.read_eq_ok_of_subset {text : String} {events events' : List String}
    (hsubset : events ⊆ events') {e : Expression} (h : Expression.read text events = .ok e) :
    Expression.read text events' = .ok e := by
  obtain ⟨ts, hlex, hparse⟩ := read_eq_ok_iff.mp h
  exact read_eq_ok_iff.mpr ⟨ts, Lexer.lex_eq_ok_of_subset hsubset hlex, hparse⟩

/-- The tokens of an expression that was read were each at the front of some text. -/
theorem Expression.exists_scan_of_read {text : String} {events : List String} {e : Expression}
    (h : Expression.read text events = .ok e) {token : Token} (htoken : token ∈ e.tokens) :
    (∃ text rest, Token.scan text = some (token, rest)) ∧
      ∀ label, token = .event label → label ∈ events := by
  rw [Lexer.tokens_of_significant (lex_eq_of_read h)] at htoken
  exact Lexer.exists_scan_of_mem_run (List.mem_filter.mp htoken).1

theorem Expression.label_mem_of_read {text : String} {events : List String} {e : Expression}
    (h : Expression.read text events = .ok e) {label : String} (hlabel : label ∈ e.chain.labels) :
    label ∈ events := by
  have hmem : Token.event label ∈ e.tokens :=
    List.mem_append_left _ (e.chain.mem_labels_iff.mp hlabel)
  exact (exists_scan_of_read h hmem).2 label rfl

end Credence
