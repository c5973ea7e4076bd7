import Mathlib
import Credence.Proofs.Expression.Grammar
import Credence.Proofs.Token.Text

/-!
# Texts of expressions

The text of a chain is read as the tokens that spell it, as long as its labels can be written in an
expression. Labels that cannot are never read, and a probability that is no number without sign is
dropped. So reading undoes writing exactly where all labels and the probability can be written.
-/

namespace Credence

variable {events : List String}

/-! ## 1. Chains -/

/-- A connective is read with the space before it. -/
theorem Connective.reads (connective : Connective) (rest : List Char) (events : List String) :
    Lexer.Reads ⟨' ' :: (connective.text.toList ++ rest), events⟩ [connective.token]
      ⟨rest, events⟩ := by
  have hblank := Lexer.reads_space (connective.text.toList ++ rest) events
  have hscan : Token.scan (connective.text.toList ++ rest) = some (connective.token, rest) := by
    cases connective <;> rfl
  apply hblank.trans (Lexer.reads_token hscan _ _)
  · cases connective <;> decide
  · cases connective <;> simp [Connective.token]

mutual
theorem Operand.reads {rest : List Char} (hrest : Token.Stops rest) : (operand : Operand) →
    (∀ label ∈ operand.labels, label ∈ events) →
    (∀ label ∈ operand.labels, Token.IsLabel label) →
    Lexer.Reads ⟨operand.text.toList ++ rest, events⟩ operand.tokens ⟨rest, events⟩
  | .event label, hevents, hlabels => by
    have hmem : label ∈ (Operand.event label).labels := List.mem_singleton_self label
    apply Lexer.reads_token (Token.scan_label (hlabels label hmem) hrest) (by simp)
    intro label' heq
    cases heq
    exact hevents label hmem
  | .group chain, hevents, hlabels => by
    have htext : (Operand.group chain).text.toList ++ rest =
        '(' :: (chain.text.toList ++ ')' :: rest) := by
      simp [Operand.text]
    have hopen : Lexer.Reads ⟨'(' :: (chain.text.toList ++ ')' :: rest), events⟩ [.openParen]
        ⟨chain.text.toList ++ ')' :: rest, events⟩ :=
      Lexer.reads_token rfl (by decide) (by simp)
    have hstops : Token.Stops (')' :: rest) := Token.stops_cons rfl rest
    have hchain := chain.reads hstops hevents hlabels
    have hclose : Lexer.Reads ⟨')' :: rest, events⟩ [.closeParen] ⟨rest, events⟩ :=
      Lexer.reads_token rfl (by decide) (by simp)
    rw [htext]
    exact hopen.trans (hchain.trans hclose)
theorem Chain.reads {rest : List Char} (hrest : Token.Stops rest) : (chain : Chain) →
    (∀ label ∈ chain.labels, label ∈ events) →
    (∀ label ∈ chain.labels, Token.IsLabel label) →
    Lexer.Reads ⟨chain.text.toList ++ rest, events⟩ chain.tokens ⟨rest, events⟩
  | .single operand, hevents, hlabels => operand.reads hrest hevents hlabels
  | .join chain connective operand, hevents, hlabels => by
    have htext : (Chain.join chain connective operand).text.toList ++ rest =
        chain.text.toList ++
          ' ' :: (connective.text.toList ++ ' ' :: (operand.text.toList ++ rest)) := by
      simp [Chain.text]
    have hstops : Token.Stops (' ' :: (connective.text.toList ++
        ' ' :: (operand.text.toList ++ rest))) := Token.stops_cons rfl _
    have hchain := chain.reads hstops
      (fun label hlabel => hevents label (List.mem_append_left _ hlabel))
      (fun label hlabel => hlabels label (List.mem_append_left _ hlabel))
    have hconnective := connective.reads (' ' :: (operand.text.toList ++ rest)) events
    have hblank := Lexer.reads_space (operand.text.toList ++ rest) events
    have hoperand := operand.reads hrest
      (fun label hlabel => hevents label (List.mem_append_right _ hlabel))
      (fun label hlabel => hlabels label (List.mem_append_right _ hlabel))
    rw [htext]
    exact hchain.trans (hconnective.trans (hblank.trans hoperand))
end

/-! ## 2. Expressions -/

namespace Expression

variable {e : Expression}

theorem lex_text_of_none (hevents : ∀ label ∈ e.chain.labels, label ∈ events)
    (hlabels : ∀ label ∈ e.chain.labels, Token.IsLabel label) (hp : e.probability = none) :
    lex e.text events = .ok e.chain.tokens := by
  have hstops : Token.Stops [] := by simp [Token.Stops]
  have hchain := e.chain.reads hstops hevents hlabels
  rw [List.append_nil] at hchain
  unfold text
  rw [hp]
  exact hchain.lex_eq rfl

/-- A chain is read up to the equals sign after it, whatever follows. -/
theorem reads_chain {chain : Chain} (hevents : ∀ label ∈ chain.labels, label ∈ events)
    (hlabels : ∀ label ∈ chain.labels, Token.IsLabel label) (rest : List Char) :
    (Lexer.start (chain.text ++ " =" ++ String.ofList rest) events).Reads chain.tokens
      ⟨'=' :: rest, events⟩ := by
  have htext : (chain.text ++ " =" ++ String.ofList rest).toList =
      chain.text.toList ++ ' ' :: '=' :: rest := by
    simp
  have hstops : Token.Stops (' ' :: '=' :: rest) := Token.stops_cons rfl _
  have hchain := chain.reads hstops hevents hlabels
  have hblank := Lexer.reads_space ('=' :: rest) events
  have hreads := hchain.trans hblank
  rw [List.append_nil, ← htext] at hreads
  exact hreads

theorem text_of_some {p : Float} (hp : e.probability = some p) :
    e.text = e.chain.text ++ " =" ++ String.ofList (' ' :: (Binary64.ofFloat p).text) := by
  apply String.toList_inj.mp
  unfold text
  rw [hp]
  simp [Token.text, numberText]

theorem lex_numeral {chain : Chain} (hevents : ∀ label ∈ chain.labels, label ∈ events)
    (hlabels : ∀ label ∈ chain.labels, Token.IsLabel label) {n : Numeral} (hn : n.Proper) :
    lex (chain.text ++ " =" ++ String.ofList (' ' :: n.text)) events =
      .ok (chain.tokens ++ [.equals n.value.toFloat]) := by
  have hscan : Token.scan ('=' :: ' ' :: n.text) = some (.equals n.value.toFloat, []) :=
    Token.scanEquals_numeral hn
  have hequals : Lexer.Reads ⟨'=' :: ' ' :: n.text, events⟩ [.equals n.value.toFloat]
      ⟨[], events⟩ := Lexer.reads_token hscan (by simp) (by simp)
  exact ((reads_chain hevents hlabels _).trans hequals).lex_eq rfl

theorem lex_text_of_plain (hevents : ∀ label ∈ e.chain.labels, label ∈ events)
    (hlabels : ∀ label ∈ e.chain.labels, Token.IsLabel label) {p : Float}
    (hp : e.probability = some p) (hplain : Binary64.Plain p) :
    lex e.text events = .ok (e.chain.tokens ++ [.equals p]) := by
  obtain ⟨n, hproper, htext, hvalue⟩ := hplain.exists_numeral
  rw [text_of_some hp, ← htext, lex_numeral hevents hlabels hproper, hvalue]

/-- A probability that is not plain is dropped. -/
theorem lex_text_of_not_plain (hevents : ∀ label ∈ e.chain.labels, label ∈ events)
    (hlabels : ∀ label ∈ e.chain.labels, Token.IsLabel label) {p : Float}
    (hp : e.probability = some p) (hplain : ¬ Binary64.Plain p) :
    lex e.text events = .ok e.chain.tokens := by
  rw [text_of_some hp]
  exact (reads_chain hevents hlabels _).lex_eq (Token.scanEquals_text_eq_none hplain)

theorem isLabel_of_read {text : String} (h : Expression.read text events = .ok e) {label : String}
    (hlabel : label ∈ e.chain.labels) : Token.IsLabel label := by
  have hmem : Token.event label ∈ e.tokens :=
    List.mem_append_left _ (e.chain.mem_labels_iff.mp hlabel)
  obtain ⟨⟨_, _, hscan⟩, -⟩ := exists_scan_of_read h hmem
  exact Token.isLabel_of_scan hscan

/-- Reading undoes writing exactly if all labels can be written and the probability, if there is
one, is finite and has no sign. -/
theorem read_text_eq_ok_iff (hevents : ∀ label ∈ e.chain.labels, label ∈ events) :
    Expression.read e.text events = .ok e ↔
      (∀ label ∈ e.chain.labels, Token.IsLabel label) ∧
      ∀ p, e.probability = some p → Binary64.Plain p := by
  constructor
  · intro h
    have hlabels : ∀ label ∈ e.chain.labels, Token.IsLabel label :=
      fun label hlabel => isLabel_of_read h hlabel
    refine ⟨hlabels, fun p hp => ?_⟩
    -- were the probability dropped, the tokens would not spell the expression
    by_contra hplain
    have hlex := lex_eq_of_read h
    rw [lex_text_of_not_plain hevents hlabels hp hplain, Except.ok.injEq, tokens, hp] at hlex
    simp at hlex
  · intro h
    obtain ⟨hlabels, hplain⟩ := h
    have hlex : lex e.text events = .ok e.tokens := by
      unfold tokens
      cases hp : e.probability with
      | none =>
        rw [lex_text_of_none hevents hlabels hp, Option.map_none, Option.toList_none,
          List.append_nil]
      | some p => exact lex_text_of_plain hevents hlabels hp (hplain p hp)
    exact read_eq_ok_iff.mpr ⟨e.tokens, hlex, e.parse_tokens⟩

def quarter : Expression :=
  ⟨.join (.single (.group (.join (.single (.event "A")) .or (.event "B")))) .and (.event "A"),
    some 0.25⟩

theorem read_text_eq_ok_iff_quarter :
    quarter.text = "(A or B) and A = 0.25" ∧
      Expression.read quarter.text ["A", "B"] = .ok quarter := by
  have hlabels : quarter.chain.labels = ["A", "B", "A"] := rfl
  have hA : Token.IsLabel "A" := ⟨by decide, List.forall_mem_singleton.mpr rfl, by decide,
    by decide, by decide, by decide, by decide⟩
  have hB : Token.IsLabel "B" := ⟨by decide, List.forall_mem_singleton.mpr rfl, by decide,
    by decide, by decide, by decide, by decide⟩
  have hplain : Binary64.Plain 0.25 := ⟨Binary64.leadingOne, -54, by decide +kernel⟩
  have hread : Expression.read quarter.text ["A", "B"] = .ok quarter ↔ _ :=
    read_text_eq_ok_iff (by simp [hlabels])
  refine ⟨by decide +kernel, hread.mpr ⟨by simp [hlabels, hA, hB], fun p hp => ?_⟩⟩
  cases hp
  exact hplain

end Expression

end Credence
