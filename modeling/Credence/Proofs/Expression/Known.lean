import Mathlib
import Credence.Proofs.Decimal.Numeral
import Credence.Proofs.Expression.Grammar
import Credence.Proofs.Token.Seams

/-!
# Which expressions are known

Before its first equals sign a text holds no probability, and no other token takes the sign. So that
sign decides: if a number follows it, the longest one is the probability, as the double nearest to
it, and nothing but blanks and what the lexer drops may come after it. If none follows, the text
counts only up to the sign.
-/

namespace Credence

namespace Token

/-! ## 1. After an equals sign -/

/-- Past any blanks the text begins with this number, and with none that is longer. -/
structure LongestNumber (text : List Char) (n : Numeral) (rest : List Char) : Prop where
  proper : n.Proper
  split : ∃ blanks : List Char, (∀ c ∈ blanks, Text.isBlank c = true) ∧
    text = blanks ++ n.text ++ rest
  longest : ∀ (blanks : List Char) (n' : Numeral) (rest' : List Char),
    (∀ c ∈ blanks, Text.isBlank c = true) → n'.Proper → text = blanks ++ n'.text ++ rest' →
    n'.text.length ≤ n.text.length

/-- There are only blanks, and after them perhaps an equals sign without a number, which ends the
text. -/
def Ignorable (text : List Char) : Prop :=
  ∃ blanks dropped : List Char, (∀ c ∈ blanks, Text.isBlank c = true) ∧ text = blanks ++ dropped ∧
    (dropped = [] ∨ ∃ after, dropped = '=' :: after ∧ ¬ NumberFollows after)

theorem exists_longestNumber {text : List Char} (h : NumberFollows text) :
    ∃ n rest, LongestNumber text n rest ∧
      scanEquals text = some (.equals n.value.toFloat, rest) := by
  cases hscan : Numeral.scan (Text.trimStart text) with
  | none =>
    have hnone : scanEquals text = none := by rw [scanEquals, hscan, Option.map_none]
    exact absurd h (scanEquals_eq_none_iff.mp hnone)
  | some result =>
    obtain ⟨n, rest⟩ := result
    obtain ⟨hn, htrim, -⟩ := Numeral.spec_of_scan hscan
    refine ⟨n, rest, ⟨hn, ?_, ?_⟩, ?_⟩
    · obtain ⟨blanks, hblank, hsplit⟩ := exists_blanks text
      refine ⟨blanks, hblank, ?_⟩
      rw [List.append_assoc, ← htrim]
      exact hsplit
    · intro blanks n' rest' hblank hn' htext
      rw [htext, trimStart_numeral hblank hn'] at hscan
      exact (Numeral.text_prefix_of_scan hscan hn' rfl).length_le
    · rw [scanEquals, hscan, Option.map_some]

theorem eq_cons_of_scan_blank {text left : List Char} (h : scan text = some (.blank, left)) :
    ∃ c after, text = c :: after ∧ Text.isBlank c = true := by
  obtain ⟨piece, hscanned, rfl⟩ := scan_eq_some_iff.mp h
  cases hscanned with
  | blank hne hblank =>
    obtain ⟨c, piece, rfl⟩ := List.exists_cons_of_ne_nil hne
    exact ⟨c, piece ++ left, rfl, hblank c List.mem_cons_self⟩

end Token

namespace Lexer

/-! ## 2. Equals signs in a text -/

variable {events : List String}

theorem Reading.mem_of_mem_piece {l : Lexer} {pieces : List (Token × List Char)} {ending : Ending}
    (h : l.Reading pieces ending) {piece : Token × List Char} (hpiece : piece ∈ pieces) {c : Char}
    (hc : c ∈ piece.2) : c ∈ l.rest := by
  rw [h.eq_flatten_append le_rfl, List.take_length]
  exact List.mem_append_left _ (List.mem_flatten.mpr ⟨_, List.mem_map_of_mem hpiece, hc⟩)

/-- A probability is read from an equals sign. -/
theorem equals_mem_of_mem_run {l : Lexer} {p : Float} (h : .equals p ∈ l.run.tokens) :
    '=' ∈ l.rest := by
  obtain ⟨pieces, htokens, hreading⟩ := l.exists_reading
  rw [← htokens, List.mem_map] at h
  obtain ⟨piece, hpiece, htoken⟩ := h
  obtain ⟨k, hk, rfl⟩ := List.getElem_of_mem hpiece
  have hread := hreading.readFrom k hk
  rw [htoken] at hread
  apply hreading.mem_of_mem_piece hpiece
  generalize pieces[k].2 = text at hread
  cases hread with
  | equals => exact List.mem_cons_self

/-- Text is only dropped from an equals sign on. -/
theorem equals_mem_of_dropped {l : Lexer} {dropped : List Char}
    (h : l.run.ending = .dropped dropped) : '=' ∈ l.rest := by
  obtain ⟨pieces, -, hreading⟩ := l.exists_reading
  have hends := hreading.ends
  rw [h] at hends
  cases hends with
  | dropped hrest =>
    rw [hreading.eq_flatten_append le_rfl, hrest]
    exact List.mem_append_right _ List.mem_cons_self

theorem stops_equals (after : List Char) : Token.Stops ('=' :: after) := Token.stops_cons rfl after

/-- Up to an equals sign a text is read to its end, or to an unknown event. -/
theorem ending_cases (events : List String) {before : List Char} (hbefore : '=' ∉ before) :
    (run ⟨before, events⟩).ending = .complete ∨
      ∃ error, (run ⟨before, events⟩).ending = .unknownEvent error := by
  cases hending : (run ⟨before, events⟩).ending with
  | complete => exact .inl rfl
  | unknownEvent error => exact .inr ⟨error, rfl⟩
  | dropped dropped => exact absurd (equals_mem_of_dropped hending) hbefore

theorem lex_eq_error {text : String} {error : UnknownEvent}
    (h : (start text events).run.ending = .unknownEvent error) : lex text events = .error error := by
  unfold lex Run.significant
  rw [h]

/-- Without a number after it an equals sign ends the text. -/
theorem lex_eq_of_dangling {text : String} {before after : List Char}
    (htext : text.toList = before ++ '=' :: after) (hbefore : '=' ∉ before)
    (hafter : ¬ Token.NumberFollows after) :
    lex text events = lex (String.ofList before) events := by
  have hstart : start text events = ⟨before ++ '=' :: after, events⟩ := by rw [start, htext]
  have hstart' : start (String.ofList before) events = ⟨before, events⟩ := by
    rw [start, String.toList_ofList]
  obtain hcomplete | ⟨error, hunknown⟩ := ending_cases events hbefore
  · have hreads := reads_append hcomplete (stops_equals after)
    have hscan : Token.scan ('=' :: after) = none :=
      Token.scan_eq_none_iff.mpr (.inr ⟨after, rfl, hafter⟩)
    rw [← hstart] at hreads
    rw [← hstart'] at hcomplete hreads
    rw [hreads.lex_eq hscan, lex_eq_of_complete hcomplete]
  · have hunknown' := ending_append hunknown (stops_equals after)
    rw [← hstart] at hunknown'
    rw [← hstart'] at hunknown
    rw [lex_eq_error hunknown, lex_eq_error hunknown']

/-- Where no token but blanks is left and no unknown event, there is no token at all. -/
theorem scan_eq_none_of_silent {text : List Char} (hhead : ∀ c ∈ text.head?, Text.isBlank c = false)
    (htokens : (run ⟨text, events⟩).tokens.filter (· ≠ .blank) = [])
    (hending : ∀ error, (run ⟨text, events⟩).ending ≠ .unknownEvent error) :
    Token.scan text = none := by
  cases hscan : Token.scan text with
  | none => rfl
  | some result =>
    obtain ⟨token, left⟩ := result
    by_cases hlabel : ∀ label, token = .event label → label ∈ events
    · have hnext : next ⟨text, events⟩ = (some (.ok token), ⟨left, events⟩) :=
        next_eq_token_iff.mpr ⟨hscan, rfl, hlabel⟩
      have hblank : token ≠ .blank := by
        rintro rfl
        obtain ⟨c, after, rfl, hc⟩ := Token.eq_cons_of_scan_blank hscan
        rw [hhead c rfl] at hc
        cases hc
      rw [run_of_token hnext, List.filter_cons_of_pos (by simpa using hblank)] at htokens
      cases htokens
    · push Not at hlabel
      obtain ⟨label, rfl, hmem⟩ := hlabel
      have hnext : next ⟨text, events⟩ = (some (.error ⟨label⟩), ⟨[], events⟩) :=
        next_eq_error_iff.mpr ⟨rfl, hmem, left, hscan⟩
      exact absurd (congrArg Run.ending (run_of_error hnext)) (hending _)

theorem ignorable_of_silent {text : List Char}
    (htokens : (run ⟨text, events⟩).tokens.filter (· ≠ .blank) = [])
    (hending : ∀ error, (run ⟨text, events⟩).ending ≠ .unknownEvent error) :
    Token.Ignorable text := by
  obtain ⟨blanks, hblank, hsplit⟩ := Token.exists_blanks text
  have hreads := reads_trimStart text events
  rw [hreads.tokens, List.nil_append] at htokens
  rw [hreads.ending] at hending
  have hscan := scan_eq_none_of_silent (Text.head_dropWhile _ text) htokens hending
  exact ⟨blanks, _, hblank, hsplit, Token.scan_eq_none_iff.mp hscan⟩

end Lexer

namespace Expression

/-! ## 3. Known and unknown expressions -/

variable {text : String} {events : List String} {e : Expression}

theorem probability_eq_none_of_read (h : Expression.read text events = .ok e)
    (hequals : '=' ∉ text.toList) : e.probability = none := by
  cases hp : e.probability with
  | none => rfl
  | some p =>
    have hmem : Token.equals p ∈ e.tokens := by
      unfold tokens
      rw [hp]
      exact List.mem_append_right _ (List.mem_singleton_self _)
    rw [Lexer.tokens_of_significant (lex_eq_of_read h)] at hmem
    exact absurd (Lexer.equals_mem_of_mem_run (List.mem_filter.mp hmem).1) hequals

theorem read_eq_of_lex_eq {text' : String} (h : lex text events = lex text' events) :
    Expression.read text events = Expression.read text' events := by
  unfold Expression.read
  rw [h]

theorem probability_of_numberFollows (h : Expression.read text events = .ok e)
    {before after : List Char} (htext : text.toList = before ++ '=' :: after)
    (hbefore : '=' ∉ before) (hafter : Token.NumberFollows after) :
    ∃ n rest, Token.LongestNumber after n rest ∧ e.probability = some n.value.toFloat ∧
      Token.Ignorable rest := by
  obtain ⟨n, rest, hlongest, hscan⟩ := Token.exists_longestNumber hafter
  have hlex := lex_eq_of_read h
  have hstart : Lexer.start text events = ⟨before ++ '=' :: after, events⟩ := by
    rw [Lexer.start, htext]
  -- no unknown event comes before the equals sign
  have hcomplete : (Lexer.run ⟨before, events⟩).ending = .complete := by
    obtain hcomplete | ⟨error, hunknown⟩ := Lexer.ending_cases events hbefore
    · exact hcomplete
    · have hunknown' := Lexer.ending_append hunknown (Lexer.stops_equals after)
      rw [← hstart] at hunknown'
      rw [Lexer.lex_eq_error hunknown'] at hlex
      cases hlex
  have hequals : Lexer.Reads ⟨'=' :: after, events⟩ [.equals n.value.toFloat] ⟨rest, events⟩ :=
    Lexer.reads_token hscan (by simp) (by simp)
  have hreads := (Lexer.reads_append hcomplete (Lexer.stops_equals after)).trans hequals
  rw [← hstart] at hreads
  -- the tokens of the expression end with the probability
  have htokens := Lexer.tokens_of_significant hlex
  rw [hreads.tokens, List.append_assoc, List.singleton_append] at htokens
  obtain ⟨-, hp, hnothing⟩ := eq_of_tokens_eq_append htokens
  refine ⟨n, rest, hlongest, hp, Lexer.ignorable_of_silent hnothing fun error hunknown => ?_⟩
  rw [← hreads.ending] at hunknown
  rw [Lexer.lex_eq_error hunknown] at hlex
  cases hlex

/-- The first equals sign of a text decides. Without one the expression is unknown. If a number
follows it, past any blanks, the double nearest to the longest such number is the probability, and
nothing else can follow but blanks and text that is dropped from a further equals sign on. If
anything else follows it, the expression is unknown, and the text is read as if it ended there. -/
theorem probability_of_first_equals (h : Expression.read text events = .ok e) :
    ('=' ∉ text.toList → e.probability = none) ∧
    ∀ before after, text.toList = before ++ '=' :: after → '=' ∉ before →
      (Token.NumberFollows after → ∃ n rest, Token.LongestNumber after n rest ∧
        e.probability = some n.value.toFloat ∧ Binary64.IsNearest n.exact n.value.toFloat ∧
        Token.Ignorable rest) ∧
      (¬ Token.NumberFollows after → e.probability = none ∧
        Expression.read (String.ofList before) events = .ok e) := by
  refine ⟨probability_eq_none_of_read h,
    fun before after htext hbefore => ⟨fun hafter => ?_, fun hafter => ?_⟩⟩
  · obtain ⟨n, rest, hlongest, hp, hrest⟩ := probability_of_numberFollows h htext hbefore hafter
    exact ⟨n, rest, hlongest, hp, n.isNearest_toFloat, hrest⟩
  · have hread : Expression.read (String.ofList before) events = .ok e := by
      rw [← read_eq_of_lex_eq (Lexer.lex_eq_of_dangling htext hbefore hafter)]
      exact h
    refine ⟨probability_eq_none_of_read hread ?_, hread⟩
    rw [String.toList_ofList]
    exact hbefore

/-- Of two equals signs the first one counts. A tenth is read as the double nearest to it. -/
theorem probability_of_first_equals_two_signs :
    (∃ n rest, Token.LongestNumber " .50 = x".toList n rest ∧ some 0.5 = some n.value.toFloat ∧
      Binary64.IsNearest n.exact 0.5 ∧ Token.Ignorable rest) ∧
    (∃ n rest, Token.LongestNumber "0.1 ".toList n rest ∧ some 0.1 = some n.value.toFloat ∧
      Binary64.IsNearest n.exact 0.1 ∧ Token.Ignorable rest) ∧
    Expression.read "A = x = 1" ["A"] = .ok ⟨.single (.event "A"), none⟩ ∧
    Expression.read "A " ["A"] = .ok ⟨.single (.event "A"), none⟩ := by
  have hhalf : Expression.read "A = .50 = x" ["A"] = .ok ⟨.single (.event "A"), some 0.5⟩ := by
    decide +kernel
  have htenth : Expression.read "A =0.1 " ["A"] = .ok ⟨.single (.event "A"), some 0.1⟩ := by
    decide +kernel
  have hunknown : Expression.read "A = x = 1" ["A"] = .ok ⟨.single (.event "A"), none⟩ := by
    decide +kernel
  have hdigits : ∀ c ∈ ['5', '0'], c.isDigit = true := List.all_eq_true.mp rfl
  have hnumber : Token.NumberFollows " .50 = x".toList :=
    ⟨[' '], ⟨[], ['5', '0']⟩, " = x".toList, List.all_eq_true.mp rfl,
      ⟨List.forall_mem_nil _, hdigits, fun hnil => absurd hnil (List.cons_ne_nil _ _)⟩, rfl⟩
  have hnumber' : Token.NumberFollows "0.1 ".toList :=
    ⟨[], ⟨['0'], ['1']⟩, [' '], List.forall_mem_nil _,
      ⟨List.all_eq_true.mp rfl, List.all_eq_true.mp rfl, fun _ => List.cons_ne_nil _ _⟩, rfl⟩
  have hnone : ¬ Token.NumberFollows " x = 1".toList := Token.scanEquals_eq_none_iff.mp rfl
  refine ⟨?_, ?_, hunknown, ?_⟩
  · obtain ⟨n, rest, hlongest, hp, hnearest, hrest⟩ :=
      ((probability_of_first_equals hhalf).2 "A ".toList _ rfl (by decide)).1 hnumber
    rw [← Option.some.inj hp] at hnearest
    exact ⟨n, rest, hlongest, hp, hnearest, hrest⟩
  · obtain ⟨n, rest, hlongest, hp, hnearest, hrest⟩ :=
      ((probability_of_first_equals htenth).2 "A ".toList _ rfl (by decide)).1 hnumber'
    rw [← Option.some.inj hp] at hnearest
    exact ⟨n, rest, hlongest, hp, hnearest, hrest⟩
  · exact (((probability_of_first_equals hunknown).2 "A ".toList _ rfl (by decide)).2 hnone).2

end Expression
end Credence
