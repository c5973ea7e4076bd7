import Mathlib
import Credence.Token.Lexer

/-!
# Runs of the lexer

A lexer reads a text token by token. What it has read of a text does not depend on what it will read
of the rest.
-/

namespace Credence

theorem Token.scan_blank {c : Char} (hc : Text.isBlank c = true) (after : List Char) :
    Token.scan (c :: after) = some (.blank, Text.trimStart after) := by
  unfold Token.scan
  split
  case h_1 heq => cases heq
  case h_7 c after _ _ _ _ _ heq =>
    cases heq
    rw [if_pos hc]
  -- no other token begins with a blank
  all_goals
    rename_i heq
    cases heq
    exact absurd hc (by decide)

namespace Lexer

/-! ## 1. One token -/

/-- The next token is the one at the front of the text, and a label among the declared ones. -/
theorem next_eq_token_iff {l l' : Lexer} {token : Token} :
    l.next = (some (.ok token), l') ↔ Token.scan l.rest = some (token, l'.rest) ∧
      l'.events = l.events ∧ ∀ label, token = .event label → label ∈ l.events := by
  unfold next
  constructor
  · intro h
    split at h
    next => cases h
    next label rest hscan =>
      split at h
      next hmem =>
        cases h
        refine ⟨hscan, rfl, fun label' heq => ?_⟩
        cases heq
        exact hmem
      next => cases h
    next hother hscan =>
      cases h
      exact ⟨hscan, rfl, fun label heq => absurd heq (hother label)⟩
  · intro h
    cases l' with
    | mk rest events =>
      obtain ⟨hscan, rfl, hlabel⟩ := h
      rw [hscan]
      cases token with
      | event label =>
        show (if label ∈ l.events then _ else _) = _
        rw [if_pos (hlabel label rfl)]
      | _ => rfl

theorem run_of_token {l l' : Lexer} {token : Token} (h : l.next = (some (.ok token), l')) :
    l.run = ⟨token :: l'.run.tokens, l'.run.ending⟩ := by
  rw [run]
  split
  · next h' =>
    rw [h] at h'
    cases h'
    rfl
  · next h' => rw [h] at h'; cases h'
  · next h' => rw [h] at h'; cases h'

theorem run_of_error {l l' : Lexer} {error : UnknownEvent}
    (h : l.next = (some (.error error), l')) : l.run = ⟨[], .unknownEvent error⟩ := by
  rw [run]
  split
  · next h' => rw [h] at h'; cases h'
  · next h' =>
    rw [h] at h'
    cases h'
    rfl
  · next h' => rw [h] at h'; cases h'

/-- There is no next token where none is at the front of the text. -/
theorem next_fst_eq_none_iff {l : Lexer} : l.next.1 = none ↔ Token.scan l.rest = none := by
  unfold next
  constructor
  · intro h
    split at h
    next hscan => exact hscan
    next => split at h <;> cases h
    next => cases h
  · intro h
    rw [h]

theorem run_of_none {l : Lexer} (h : Token.scan l.rest = none) :
    l.run = ⟨[], if l.rest = [] then .complete else .dropped l.rest⟩ := by
  have hnext := next_fst_eq_none_iff.mpr h
  rw [run]
  split
  · next h' => rw [h'] at hnext; cases hnext
  · next h' => rw [h'] at hnext; cases hnext
  · rfl

/-- Every token of a run was at the front of some text. -/
theorem exists_scan_of_mem_run {l : Lexer} {token : Token} (h : token ∈ l.run.tokens) :
    (∃ text rest, Token.scan text = some (token, rest)) ∧
      ∀ label, token = .event label → label ∈ l.events := by
  induction l using Lexer.run.induct with
  | case1 l token' l' hnext ih =>
    obtain ⟨hscan, hevents, hlabel⟩ := next_eq_token_iff.mp hnext
    rw [run_of_token hnext, List.mem_cons] at h
    cases h with
    | inl heq =>
      rw [heq]
      exact ⟨⟨_, _, hscan⟩, hlabel⟩
    | inr hlater =>
      rw [← hevents]
      exact ih hlater
  | case2 l error l' hnext =>
    rw [run_of_error hnext] at h
    exact absurd h List.not_mem_nil
  | case3 l l' hnext =>
    rw [run_of_none (next_fst_eq_none_iff.mp (congrArg Prod.fst hnext))] at h
    exact absurd h List.not_mem_nil

theorem tokens_of_significant {r : Run} {ts : List Token} (h : r.significant = .ok ts) :
    ts = r.tokens.filter (· ≠ .blank) := by
  unfold Run.significant at h
  split at h
  · cases h
  · cases h
    rfl

/-! ## 2. Stretches of text -/

/-- The lexer gets from one text to another by reading tokens, blanks left aside. -/
structure Reads (l : Lexer) (tokens : List Token) (l' : Lexer) : Prop where
  tokens : l.run.tokens.filter (· ≠ .blank) = tokens ++ l'.run.tokens.filter (· ≠ .blank)
  ending : l.run.ending = l'.run.ending

theorem Reads.trans {l l' l'' : Lexer} {ts ts' : List Token} (h : l.Reads ts l')
    (h' : l'.Reads ts' l'') : l.Reads (ts ++ ts') l'' where
  tokens := by rw [h.tokens, h'.tokens, List.append_assoc]
  ending := by rw [h.ending, h'.ending]

variable {text rest : List Char} {events : List String}

theorem reads_token {token : Token} (hscan : Token.scan text = some (token, rest))
    (hblank : token ≠ .blank) (hlabel : ∀ label, token = .event label → label ∈ events) :
    Reads ⟨text, events⟩ [token] ⟨rest, events⟩ := by
  have hnext : next ⟨text, events⟩ = (some (.ok token), ⟨rest, events⟩) :=
    next_eq_token_iff.mpr ⟨hscan, rfl, hlabel⟩
  refine ⟨?_, ?_⟩
  · rw [run_of_token hnext, List.filter_cons_of_pos (by simp [hblank])]
    rfl
  · rw [run_of_token hnext]

theorem Reads.refl (l : Lexer) : l.Reads [] l where
  tokens := rfl
  ending := rfl

theorem Reads.symm {l l' : Lexer} (h : l.Reads [] l') : l'.Reads [] l where
  tokens := h.tokens.symm
  ending := h.ending.symm

theorem reads_trimStart (text : List Char) (events : List String) :
    Reads ⟨text, events⟩ [] ⟨Text.trimStart text, events⟩ := by
  cases text with
  | nil => exact .refl _
  | cons c after =>
    by_cases hc : Text.isBlank c = true
    · have htrim : Text.trimStart (c :: after) = Text.trimStart after :=
        List.dropWhile_cons_of_pos hc
      have hnext : next ⟨c :: after, events⟩ = (some (.ok .blank), ⟨Text.trimStart after, events⟩) :=
        next_eq_token_iff.mpr ⟨Token.scan_blank hc after, rfl, by simp⟩
      rw [htrim]
      refine ⟨?_, ?_⟩
      · rw [run_of_token hnext, List.filter_cons_of_neg (by simp)]
        rfl
      · rw [run_of_token hnext]
    · have htrim : Text.trimStart (c :: after) = c :: after := List.dropWhile_cons_of_neg hc
      rw [htrim]
      exact .refl _

/-- Blanks are passed over, whatever comes after them. -/
theorem reads_blanks {blanks : List Char} (hblank : ∀ c ∈ blanks, Text.isBlank c = true)
    (rest : List Char) (events : List String) :
    Reads ⟨blanks ++ rest, events⟩ [] ⟨rest, events⟩ := by
  have htrim : Text.trimStart (blanks ++ rest) = Text.trimStart rest :=
    List.dropWhile_append_of_pos hblank
  have hblanks := reads_trimStart (blanks ++ rest) events
  rw [htrim] at hblanks
  exact hblanks.trans (reads_trimStart rest events).symm

theorem reads_space (rest : List Char) (events : List String) :
    Reads ⟨' ' :: rest, events⟩ [] ⟨rest, events⟩ :=
  reads_blanks (List.forall_mem_singleton.mpr rfl) rest events

/-- At the end, and where no token is, nothing more is read. -/
theorem run_of_scan_eq_none (events : List String) (hscan : Token.scan text = none) :
    (run ⟨text, events⟩).tokens = [] ∧
      ∀ error, (run ⟨text, events⟩).ending ≠ .unknownEvent error := by
  have hrun : run ⟨text, events⟩ = ⟨[], if text = [] then .complete else .dropped text⟩ :=
    run_of_none hscan
  rw [hrun]
  refine ⟨rfl, fun error => ?_⟩
  show (if text = [] then Ending.complete else .dropped text) ≠ _
  split <;> simp

/-- What is read up to a place where no token is, is all that the text contains. -/
theorem Reads.lex_eq {text : String} {tokens : List Token}
    (h : (start text events).Reads tokens ⟨rest, events⟩) (hscan : Token.scan rest = none) :
    lex text events = .ok tokens := by
  have hend := run_of_scan_eq_none events hscan
  unfold lex Run.significant
  split
  next error heq =>
    rw [h.ending] at heq
    exact absurd heq (hend.2 error)
  next =>
    rw [h.tokens, hend.1, List.filter_nil, List.append_nil]

/-! ## 3. More events -/

/-- Where all labels are declared, declaring more events changes nothing. -/
theorem run_eq_of_subset {l : Lexer} {events' : List String} (hsubset : l.events ⊆ events')
    (hending : ∀ error, l.run.ending ≠ .unknownEvent error) : run ⟨l.rest, events'⟩ = l.run := by
  induction l using Lexer.run.induct with
  | case1 l token l' hnext ih =>
    obtain ⟨hscan, hevents, hlabel⟩ := next_eq_token_iff.mp hnext
    have hnext' : next ⟨l.rest, events'⟩ = (some (.ok token), ⟨l'.rest, events'⟩) :=
      next_eq_token_iff.mpr ⟨hscan, rfl, fun label heq => hsubset (hlabel label heq)⟩
    rw [run_of_token hnext] at hending
    rw [run_of_token hnext, run_of_token hnext', ih (hevents ▸ hsubset) hending]
  | case2 l error l' hnext =>
    -- the run would have ended here
    rw [run_of_error hnext] at hending
    exact absurd rfl (hending error)
  | case3 l l' hnext =>
    have hscan := next_fst_eq_none_iff.mp (congrArg Prod.fst hnext)
    have hscan' : Token.scan (⟨l.rest, events'⟩ : Lexer).rest = none := hscan
    rw [run_of_none hscan, run_of_none hscan']

theorem lex_eq_ok_of_subset {text : String} {events' : List String} {tokens : List Token}
    (hsubset : events ⊆ events') (h : lex text events = .ok tokens) :
    lex text events' = .ok tokens := by
  have hending : ∀ error, (start text events).run.ending ≠ .unknownEvent error := by
    intro error heq
    unfold lex Run.significant at h
    rw [heq] at h
    cases h
  have hrun : (start text events').run = (start text events).run := run_eq_of_subset hsubset hending
  unfold lex at h ⊢
  rw [hrun]
  exact h

end Lexer
end Credence
