import Mathlib
import Credence.Proofs.Token.Pieces

/-!
# Seams between texts

When a text is put after another one, what is read of the first stays as it was, unless a label goes
on across the seam. So a text that has been read to its end, blanks, and any other text are read as
the two texts one after the other, however many blanks there are.
-/

namespace Credence

namespace Token

/-- Digits and points may stand in labels. -/
theorem Stops.not_numeral {rest : List Char} (h : Stops rest) :
    ∀ c ∈ rest.head?, c.isDigit = false ∧ c ≠ '.' := by
  intro c hc
  have hlabel := h c hc
  constructor
  · by_contra hdigit
    have hdigit : c.isDigit = true := Bool.eq_true_of_not_eq_false hdigit
    have hc : isLabelChar c = true := by
      refine isLabelChar_iff.mpr ⟨isBlank_of_isDigit hdigit, ?_, ?_⟩
      · rintro rfl
        cases hdigit
      · rintro rfl
        cases hdigit
    rw [hlabel] at hc
    cases hc
  · rintro rfl
    cases hlabel

theorem Stops.append {text rest : List Char} (htext : Stops text) (hrest : Stops rest) :
    Stops (text ++ rest) := by
  cases text with
  | nil => exact hrest
  | cons c text => exact htext

/-- A token is read as before when a text follows in which no label goes on. Only blanks go on with
blanks. -/
theorem scan_append {text left rest : List Char} {token : Token}
    (h : scan text = some (token, left)) (hblank : token ≠ .blank) (hrest : Stops rest) :
    scan (text ++ rest) = some (token, left ++ rest) := by
  obtain ⟨piece, hscanned, htext⟩ := scan_eq_some_iff.mp h
  refine scan_eq_some_iff.mpr ⟨piece, ?_, ?_⟩
  · cases hscanned with
    | blank => exact absurd rfl hblank
    | openParen => exact .openParen _
    | closeParen => exact .closeParen _
    | and => exact .and _
    | or => exact .or _
    | equals hblanks hn hstops => exact .equals hblanks hn (hstops.append hrest.not_numeral)
    | event hlabel hstops => exact .event hlabel (hstops.append hrest)
  · rw [htext, List.append_assoc]

end Token

namespace Lexer

variable {rest : List Char}

/-! ## 1. Runs -/

theorem reads_step {l l' : Lexer} {token : Token} (hnext : l.next = (some (.ok token), l'))
    (hrest : Token.Stops rest) :
    Reads ⟨l.rest ++ rest, l.events⟩ ([token].filter (· ≠ .blank)) ⟨l'.rest ++ rest, l'.events⟩ := by
  obtain ⟨hscan, hevents, hlabel⟩ := next_eq_token_iff.mp hnext
  rw [hevents]
  by_cases htoken : token = .blank
  · subst htoken
    obtain ⟨piece, hscanned, htext⟩ := Token.scan_eq_some_iff.mp hscan
    cases hscanned with
    | blank _ hblank =>
      rw [htext, List.append_assoc]
      exact reads_blanks hblank _ _
  · rw [List.filter_cons_of_pos (by simpa using htoken)]
    exact reads_token (Token.scan_append hscan htoken hrest) htoken hlabel

/-- A text that is read to its end is read as before when another text follows. -/
theorem reads_append {l : Lexer} (hcomplete : l.run.ending = .complete)
    (hrest : Token.Stops rest) :
    Reads ⟨l.rest ++ rest, l.events⟩ (l.run.tokens.filter (· ≠ .blank)) ⟨rest, l.events⟩ := by
  induction l using Lexer.run.induct with
  | case1 l token l' hnext ih =>
    obtain ⟨-, hevents, -⟩ := next_eq_token_iff.mp hnext
    rw [run_of_token hnext] at hcomplete ⊢
    have hlater := ih hcomplete
    rw [hevents] at hlater
    have hstep := reads_step hnext hrest
    rw [hevents] at hstep
    have hreads := hstep.trans hlater
    rw [← List.filter_append, List.singleton_append] at hreads
    exact hreads
  | case2 l error l' hnext =>
    rw [run_of_error hnext] at hcomplete
    cases hcomplete
  | case3 l l' hnext =>
    have hscan := next_fst_eq_none_iff.mp (congrArg Prod.fst hnext)
    rw [run_of_none hscan] at hcomplete ⊢
    have hnil : l.rest = [] := by
      by_contra hne
      simp [hne] at hcomplete
    rw [hnil]
    exact .refl _

/-- An unknown event stays one when another text follows. -/
theorem ending_append {l : Lexer} {error : UnknownEvent}
    (hunknown : l.run.ending = .unknownEvent error) (hrest : Token.Stops rest) :
    (run ⟨l.rest ++ rest, l.events⟩).ending = .unknownEvent error := by
  induction l using Lexer.run.induct with
  | case1 l token l' hnext ih =>
    rw [run_of_token hnext] at hunknown
    rw [(reads_step hnext hrest).ending]
    exact ih hunknown
  | case2 l error' l' hnext =>
    rw [run_of_error hnext] at hunknown
    cases hunknown
    obtain ⟨-, hmem, after, hscan⟩ := next_eq_error_iff.mp hnext
    have hscan' := Token.scan_append hscan (by simp) hrest
    have hnext' : next ⟨l.rest ++ rest, l.events⟩ = (some (.error error), ⟨[], l.events⟩) :=
      next_eq_error_iff.mpr ⟨rfl, hmem, _, hscan'⟩
    rw [run_of_error hnext']
  | case3 l l' hnext =>
    rw [run_of_none (next_fst_eq_none_iff.mp (congrArg Prod.fst hnext))] at hunknown
    simp only at hunknown
    split at hunknown <;> cases hunknown

/-! ## 2. Texts -/

variable {text later : String} {events : List String}

theorem lex_eq_of_complete (hcomplete : (start text events).run.ending = .complete) :
    lex text events = .ok ((start text events).run.tokens.filter (· ≠ .blank)) := by
  unfold lex Run.significant
  rw [hcomplete]

theorem Reads.lex_eq_map {tokens : List Token}
    (h : (start text events).Reads tokens (start later events)) :
    lex text events = (lex later events).map (tokens ++ ·) := by
  unfold lex Run.significant
  rw [h.ending, h.tokens]
  cases (start later events).run.ending <;> rfl

theorem stops_blanks {blanks : List Char} (hne : blanks ≠ [])
    (hblank : ∀ c ∈ blanks, Text.isBlank c = true) (rest : List Char) :
    Token.Stops (blanks ++ rest) := by
  cases blanks with
  | nil => exact absurd rfl hne
  | cons c blanks =>
    apply Token.stops_cons
    simp [Token.isLabelChar, hblank c List.mem_cons_self]

theorem reads_append_blanks (hcomplete : (start text events).run.ending = .complete)
    {blanks : String} (hne : blanks ≠ "") (hblank : ∀ c ∈ blanks.toList, Text.isBlank c = true)
    (later : String) :
    (start (text ++ blanks ++ later) events).Reads
      ((start text events).run.tokens.filter (· ≠ .blank)) (start later events) := by
  have hstops := stops_blanks (by simpa using hne) hblank later.toList
  have hreads := (reads_append hcomplete hstops).trans (reads_blanks hblank later.toList events)
  rw [List.append_nil] at hreads
  have htext : (text ++ blanks ++ later).toList = text.toList ++ (blanks.toList ++ later.toList) := by
    simp
  unfold start
  rw [htext]
  exact hreads

/-- After a text that is read to its end and some blanks, any text is read as it is on its own: its
tokens come after those of the first text, or its unknown event is the error. How many blanks there
are, and of which kind, makes no difference. -/
theorem lex_append_blanks (hcomplete : (start text events).run.ending = .complete)
    {blanks : String} (hne : blanks ≠ "") (hblank : ∀ c ∈ blanks.toList, Text.isBlank c = true)
    (later : String) :
    ∃ tokens, lex text events = .ok tokens ∧
      (∀ tokens', lex later events = .ok tokens' →
        lex (text ++ blanks ++ later) events = .ok (tokens ++ tokens')) ∧
      (∀ error, lex later events = .error error →
        lex (text ++ blanks ++ later) events = .error error) ∧
      ∀ blanks' : String, blanks' ≠ "" → (∀ c ∈ blanks'.toList, Text.isBlank c = true) →
        lex (text ++ blanks' ++ later) events = lex (text ++ blanks ++ later) events := by
  have hlex := (reads_append_blanks hcomplete hne hblank later).lex_eq_map
  refine ⟨_, lex_eq_of_complete hcomplete, fun tokens' hlater => ?_, fun error hlater => ?_,
    fun blanks' hne' hblank' => ?_⟩
  · rw [hlex, hlater]
    rfl
  · rw [hlex, hlater]
    rfl
  · rw [hlex, (reads_append_blanks hcomplete hne' hblank' later).lex_eq_map]

/-- Without the blank the point would belong to the number. -/
theorem lex_append_blanks_point :
    lex ("A = 5" ++ "\t" ++ ".5") ["A", ".5"] = .ok [.event "A", .equals 5, .event ".5"] ∧
      lex ("A = 5" ++ "\u3000\n" ++ ".6") ["A", ".5"] = .error ⟨".6"⟩ := by
  have hcomplete : (start "A = 5" ["A", ".5"]).run.ending = .complete := by decide +kernel
  have htext : lex "A = 5" ["A", ".5"] = .ok [.event "A", .equals 5] := by decide +kernel
  constructor
  · obtain ⟨tokens, htokens, hok, -, -⟩ :=
      lex_append_blanks hcomplete (show "\t" ≠ "" by decide) (List.all_eq_true.mp rfl) ".5"
    cases htext.symm.trans htokens
    exact hok _ (by decide +kernel)
  · obtain ⟨-, -, -, herror, -⟩ :=
      lex_append_blanks hcomplete (show "\u3000\n" ≠ "" by decide) (List.all_eq_true.mp rfl) ".6"
    exact herror _ (by decide +kernel)

end Lexer
end Credence
