import Mathlib
import Credence.Proofs.Expression.Text

/-!
# Normal forms of texts

The text of an expression that was read is read as the same expression again, so it is a normal form
of what was read. The one exception are probabilities past all finite doubles: their text is no
number, so the probability is dropped and the expression becomes unknown.
-/

namespace Credence.Expression

variable {events : List String} {text : String} {e : Expression}

theorem probability_of_read (h : Expression.read text events = .ok e) {p : Float}
    (hp : e.probability = some p) : Binary64.Plain p ∨ p = Binary64.infinity := by
  have hmem : Token.equals p ∈ e.tokens := by
    unfold tokens
    rw [hp]
    exact List.mem_append_right _ (List.mem_singleton_self _)
  obtain ⟨⟨_, _, hscan⟩, -⟩ := exists_scan_of_read h hmem
  exact Token.equals_of_scan hscan

theorem read_eq_ok_of_lex (h : lex text events = .ok e.tokens) :
    Expression.read text events = .ok e :=
  read_eq_ok_iff.mpr ⟨e.tokens, h, e.parse_tokens⟩

theorem text_of_infinity (hp : e.probability = some Binary64.infinity) :
    e.text = e.chain.text ++ " = inf" := by
  have hinf : (Token.equals Binary64.infinity).text = "= inf" := by decide +kernel
  unfold Expression.text
  rw [hp]
  show e.chain.text ++ " " ++ (Token.equals Binary64.infinity).text = _
  rw [hinf, String.append_assoc]
  rfl

/-- Without a probability, or with a finite one, an expression comes back as it was read. With any
other its text ends in what is no number, and it comes back unknown. -/
theorem read_text_of_read (h : Expression.read text events = .ok e) :
    (e.probability ≠ some Binary64.infinity → Expression.read e.text events = .ok e) ∧
    (e.probability = some Binary64.infinity →
      e.text = e.chain.text ++ " = inf" ∧ Expression.read e.text events = .ok ⟨e.chain, none⟩) := by
  have hlabels : ∀ label ∈ e.chain.labels, Token.IsLabel label :=
    fun label hlabel => isLabel_of_read h hlabel
  have hevents : ∀ label ∈ e.chain.labels, label ∈ events :=
    fun label hlabel => label_mem_of_read h hlabel
  constructor
  · intro hfinite
    apply read_eq_ok_of_lex
    cases hp : e.probability with
    | none =>
      have htokens : e.tokens = e.chain.tokens := by
        rw [← tokens_of_none e.chain, ← hp]
      rw [htokens]
      exact lex_text_of_none hevents hlabels hp
    | some p =>
      have hplain : Binary64.Plain p := by
        apply (probability_of_read h hp).resolve_right
        intro heq
        exact hfinite (heq ▸ hp)
      unfold tokens
      rw [hp]
      exact lex_text_of_plain hevents hlabels hp hplain
  · intro hp
    refine ⟨text_of_infinity hp, read_eq_ok_of_lex ?_⟩
    rw [tokens_of_none]
    exact lex_text_of_not_plain hevents hlabels hp Binary64.not_plain_infinity

def nested : Expression :=
  ⟨.join (.single (.group (.single (.event "A")))) .or (.event "B"), some 0.1⟩

theorem read_text_of_read_tenth :
    Expression.read "( A)or\tB =0.10" ["A", "B"] = .ok nested ∧ nested.text = "(A) or B = 0.1" ∧
      Expression.read nested.text ["A", "B"] = .ok nested := by
  have hread : Expression.read "( A)or\tB =0.10" ["A", "B"] = .ok nested := by decide +kernel
  have hfinite : nested.probability ≠ some Binary64.infinity := by decide +kernel
  exact ⟨hread, by decide +kernel, (read_text_of_read hread).1 hfinite⟩

/-- Two, followed by 308 zeros. -/
def overflowing : Numeral := ⟨'2' :: List.replicate 308 '0', []⟩

theorem proper_overflowing : overflowing.Proper := by
  refine ⟨fun c hc => ?_, List.forall_mem_nil _, fun _ => List.cons_ne_nil _ _⟩
  cases List.mem_cons.mp hc with
  | inl heq => exact heq ▸ rfl
  | inr hzero => exact Decimal.isDigit_of_mem_zeros hzero

/-- The number is past all finite doubles, so the event has a probability, and none once its text is
read. -/
theorem overflow_reads_as_unknown :
    ∃ e, Expression.read ("A = 2" ++ String.ofList (List.replicate 308 '0')) ["A"] = .ok e ∧
      e.text = "A = inf" ∧ e.isUnknown = false ∧
      Expression.read e.text ["A"] = .ok ⟨.single (.event "A"), none⟩ ∧
      Expression.read e.text ["A"] ≠ .ok e := by
  have hvalue : overflowing.value.toFloat = Binary64.infinity := by decide +kernel
  have htext (digits : List Char) : "A = 2" ++ String.ofList digits =
      (Chain.single (.event "A")).text ++ " =" ++ String.ofList (' ' :: '2' :: digits) := by
    apply String.toList_inj.mp
    simp [Chain.text, Operand.text]
  have hlabel : Token.IsLabel "A" := ⟨by decide, List.forall_mem_singleton.mpr rfl, by decide,
    by decide, by decide, by decide, by decide⟩
  have hevents : ∀ label ∈ (Chain.single (.event "A")).labels, label ∈ ["A"] := fun _ h => h
  have hlex := lex_numeral hevents (List.forall_mem_singleton.mpr hlabel) proper_overflowing
  have hback : Expression.read "A = inf" ["A"] = .ok ⟨.single (.event "A"), none⟩ := by
    decide +kernel
  refine ⟨⟨.single (.event "A"), some Binary64.infinity⟩, ?_, text_of_infinity rfl, rfl, hback, ?_⟩
  · apply read_eq_ok_of_lex
    rw [hvalue] at hlex
    rw [htext]
    exact hlex
  · show Expression.read "A = inf" ["A"] ≠ _
    rw [hback]
    intro h
    cases h

end Credence.Expression
