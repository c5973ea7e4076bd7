import Mathlib
import Credence.Proofs.Token.Text

/-!
# What a lexer takes and leaves

Each token is read from a piece at the front of the text that is left. The pieces in order and what
is left make up the text, until all of it has been read, or a label comes that is not declared, or an
equals sign without a number. These are the only ends, and after them nothing more is read.
-/

namespace Credence

namespace Token

/-! ## 1. Pieces of a text -/

/-- The texts that a token is read from. -/
inductive ReadFrom : Token → List Char → Prop
  | blank {blanks : List Char} (hne : blanks ≠ [])
    (hblank : ∀ c ∈ blanks, Text.isBlank c = true) : ReadFrom .blank blanks
  | openParen : ReadFrom .openParen ['(']
  | closeParen : ReadFrom .closeParen [')']
  | and : ReadFrom .and ['a', 'n', 'd']
  | or : ReadFrom .or ['o', 'r']
  | equals {blanks : List Char} {n : Numeral} (hblank : ∀ c ∈ blanks, Text.isBlank c = true)
    (hn : n.Proper) : ReadFrom (.equals n.value.toFloat) ('=' :: (blanks ++ n.text))
  | event {label : String} (h : IsLabel label) : ReadFrom (.event label) label.toList

theorem ReadFrom.ne_nil {token : Token} {piece : List Char} (h : token.ReadFrom piece) :
    piece ≠ [] := by
  cases h with
  | blank hne _ => exact hne
  | event h => exact fun hnil => h.nonempty (String.toList_eq_nil_iff.mp hnil)
  | _ => exact List.cons_ne_nil _ _

/-- The text begins with a number, after any blanks. -/
def NumberFollows (text : List Char) : Prop :=
  ∃ (blanks : List Char) (n : Numeral) (rest : List Char),
    (∀ c ∈ blanks, Text.isBlank c = true) ∧ n.Proper ∧ text = blanks ++ n.text ++ rest

theorem scanEquals_eq_none_iff {text : List Char} :
    scanEquals text = none ↔ ¬ NumberFollows text := by
  rw [scanEquals, Option.map_eq_none_iff, Numeral.scan_eq_none_iff, not_iff_not]
  constructor
  · rintro ⟨n, rest, hn, htrim⟩
    obtain ⟨blanks, hblank, hsplit⟩ := exists_blanks text
    refine ⟨blanks, n, rest, hblank, hn, ?_⟩
    rw [List.append_assoc, ← htrim]
    exact hsplit
  · rintro ⟨blanks, n, rest, hblank, hn, rfl⟩
    exact ⟨n, rest, hn, trimStart_numeral hblank hn rest⟩

/-- No token is at the front of a text only at its end, and at an equals sign without a number. -/
theorem scan_eq_none_iff {text : List Char} :
    scan text = none ↔
      text = [] ∨ ∃ after, text = '=' :: after ∧ ¬ NumberFollows after := by
  unfold scan
  split
  case h_1 => simp
  case h_6 after => simp [scanEquals_eq_none_iff]
  case h_7 c after _ _ _ _ hequals =>
    have hc : c ≠ '=' := hequals
    split <;> simp [hc]
  all_goals simp

theorem Scanned.readFrom {token : Token} {piece rest : List Char} (h : Scanned token piece rest) :
    token.ReadFrom piece := by
  cases h with
  | blank hne hblank => exact .blank hne hblank
  | openParen => exact .openParen
  | closeParen => exact .closeParen
  | and => exact .and
  | or => exact .or
  | equals hblank hn => exact .equals hblank hn
  | event hlabel => exact .event hlabel

end Token

namespace Lexer

/-! ## 2. Calls -/

/-- The lexer after some calls. -/
def afterCalls (l : Lexer) : ℕ → Lexer
  | 0 => l
  | k + 1 => l.next.2.afterCalls k

/-- What is returned by the call that follows some calls. -/
def item (l : Lexer) (k : ℕ) : Option (Except UnknownEvent Token) :=
  (l.afterCalls k).next.1

theorem afterCalls_add_one (l : Lexer) (k : ℕ) : l.afterCalls (k + 1) = (l.afterCalls k).next.2 := by
  induction k generalizing l with
  | zero => rfl
  | succ k ih => exact ih l.next.2

/-- Reading changes nothing about which events are declared. -/
theorem events_afterCalls (l : Lexer) (k : ℕ) : (l.afterCalls k).events = l.events := by
  have hnext : ∀ l : Lexer, l.next.2.events = l.events := by
    intro l
    unfold next
    split
    next => rfl
    next => split <;> rfl
    next => rfl
  induction k with
  | zero => rfl
  | succ k ih => rw [afterCalls_add_one, hnext, ih]

theorem next_of_scan_eq_none {l : Lexer} (h : Token.scan l.rest = none) :
    l.next = (none, { l with rest := [] }) := by
  unfold next
  rw [h]

theorem scan_of_rest_eq_nil {l : Lexer} (h : l.rest = []) : Token.scan l.rest = none :=
  Token.scan_eq_none_iff.mpr (.inl h)

theorem rest_of_next_eq_none {l : Lexer} (h : l.next.1 = none) : l.next.2.rest = [] := by
  rw [next_of_scan_eq_none (next_fst_eq_none_iff.mp h)]

theorem next_fst_of_rest_eq_nil {l : Lexer} (h : l.rest = []) : l.next.1 = none :=
  next_fst_eq_none_iff.mpr (scan_of_rest_eq_nil h)

/-- Where no text is left, none comes back. -/
theorem rest_afterCalls_of_le {l : Lexer} {j k : ℕ} (h : (l.afterCalls j).rest = []) (hle : j ≤ k) :
    (l.afterCalls k).rest = [] := by
  induction k, hle using Nat.le_induction with
  | base => exact h
  | succ k _ ih =>
    rw [afterCalls_add_one]
    exact rest_of_next_eq_none (next_fst_of_rest_eq_nil ih)

/-- After a call that returns nothing no text is left, and no later call returns anything. -/
theorem item_of_le {l : Lexer} {j k : ℕ} (h : l.item j = none) (hle : j ≤ k) :
    l.item k = none ∧ (l.afterCalls (k + 1)).rest = [] := by
  have hend : (l.afterCalls (j + 1)).rest = [] := by
    rw [afterCalls_add_one]
    exact rest_of_next_eq_none h
  refine ⟨?_, rest_afterCalls_of_le hend (Nat.succ_le_succ hle)⟩
  obtain rfl | hlt := hle.eq_or_lt
  · exact h
  · exact next_fst_of_rest_eq_nil (rest_afterCalls_of_le hend hlt)

/-- An unknown event is a label at the front of the text. -/
theorem next_eq_error_iff {l l' : Lexer} {error : UnknownEvent} :
    l.next = (some (.error error), l') ↔ l' = { l with rest := [] } ∧ error.label ∉ l.events ∧
      ∃ after, Token.scan l.rest = some (.event error.label, after) := by
  unfold next
  constructor
  · intro h
    split at h
    next => cases h
    next label after hscan =>
      split at h
      next => cases h
      next hmem =>
        cases h
        exact ⟨rfl, hmem, after, hscan⟩
    next => cases h
  · rintro ⟨rfl, hmem, after, hscan⟩
    rw [hscan]
    show (if error.label ∈ l.events then _ else _) = _
    rw [if_neg hmem]

/-! ## 3. The ends -/

/-- What the last call returns. -/
def Ending.item : Ending → Option (Except UnknownEvent Token)
  | .unknownEvent error => some (.error error)
  | _ => none

theorem Ending.item_ne_token (ending : Ending) (token : Token) :
    ending.item ≠ some (.ok token) := by
  cases ending <;> simp [Ending.item]

/-- The places where no further token is read: the end of the text, a label that is not declared,
and an equals sign that no number follows. -/
inductive Ends (l : Lexer) : Ending → Prop
  | complete (hrest : l.rest = []) : Ends l .complete
  | unknownEvent {label : String} {after : List Char} (hlabel : Token.IsLabel label)
    (hstops : Token.Stops after) (hrest : l.rest = label.toList ++ after)
    (hunknown : label ∉ l.events) : Ends l (.unknownEvent ⟨label⟩)
  | dropped {after : List Char} (hrest : l.rest = '=' :: after)
    (hnumber : ¬ Token.NumberFollows after) : Ends l (.dropped ('=' :: after))

theorem Ends.next_eq {l : Lexer} {ending : Ending} (h : l.Ends ending) :
    l.next = (ending.item, { l with rest := [] }) := by
  cases h with
  | complete hrest => exact next_of_scan_eq_none (scan_of_rest_eq_nil hrest)
  | @unknownEvent label after hlabel hstops hrest hunknown =>
    have hscan : Token.scan l.rest = some (.event label, after) := by
      rw [hrest]
      exact Token.scan_label hlabel hstops
    exact next_eq_error_iff.mpr ⟨rfl, hunknown, after, hscan⟩
  | @dropped after hrest hnumber =>
    exact next_of_scan_eq_none (Token.scan_eq_none_iff.mpr (.inr ⟨after, hrest, hnumber⟩))

theorem Ends.run_eq {l : Lexer} {ending : Ending} (h : l.Ends ending) : l.run = ⟨[], ending⟩ := by
  have hnext := h.next_eq
  cases h with
  | complete hrest => rw [run_of_none (scan_of_rest_eq_nil hrest), if_pos hrest]
  | unknownEvent => exact run_of_error hnext
  | dropped hrest =>
    have hscan := next_fst_eq_none_iff.mp (congrArg Prod.fst hnext)
    rw [run_of_none hscan, if_neg (by simp [hrest]), hrest]

theorem Ends.unique {l : Lexer} {ending ending' : Ending} (h : l.Ends ending)
    (h' : l.Ends ending') : ending = ending' :=
  congrArg Run.ending (h.run_eq.symm.trans h'.run_eq)

theorem Ends.of_error {l l' : Lexer} {error : UnknownEvent}
    (h : l.next = (some (.error error), l')) : l.Ends (.unknownEvent error) := by
  obtain ⟨-, hunknown, after, hscan⟩ := next_eq_error_iff.mp h
  obtain ⟨piece, hscanned, hrest⟩ := Token.scan_eq_some_iff.mp hscan
  cases hscanned with
  | event hlabel hstops => exact .unknownEvent hlabel hstops hrest hunknown

theorem Ends.of_none {l : Lexer} (h : Token.scan l.rest = none) :
    l.Ends (if l.rest = [] then .complete else .dropped l.rest) := by
  obtain hrest | ⟨after, hrest, hnumber⟩ := Token.scan_eq_none_iff.mp h
  · rw [if_pos hrest]
    exact .complete hrest
  · rw [if_neg (by simp [hrest]), hrest]
    exact .dropped hrest hnumber

/-! ## 4. Readings -/

/-- One call after the other takes these tokens from these pieces of the text, and then no further
token is read. -/
structure Reading (l : Lexer) (pieces : List (Token × List Char)) (ending : Ending) : Prop where
  item_eq : ∀ (k : ℕ) (hk : k < pieces.length), l.item k = some (.ok pieces[k].1)
  readFrom : ∀ (k : ℕ) (hk : k < pieces.length), pieces[k].1.ReadFrom pieces[k].2
  rest_eq : ∀ (k : ℕ) (hk : k < pieces.length),
    (l.afterCalls k).rest = pieces[k].2 ++ (l.afterCalls (k + 1)).rest
  ends : (l.afterCalls pieces.length).Ends ending

namespace Reading

variable {l l' : Lexer} {pieces pieces' : List (Token × List Char)} {ending ending' : Ending}

theorem nil (h : l.Ends ending) : l.Reading [] ending where
  item_eq k hk := absurd hk (Nat.not_lt_zero k)
  readFrom k hk := absurd hk (Nat.not_lt_zero k)
  rest_eq k hk := absurd hk (Nat.not_lt_zero k)
  ends := h

theorem cons {token : Token} {piece : List Char} (hnext : l.next = (some (.ok token), l'))
    (hread : token.ReadFrom piece) (hrest : l.rest = piece ++ l'.rest)
    (later : l'.Reading pieces ending) : l.Reading ((token, piece) :: pieces) ending := by
  have hafter : ∀ k, l.afterCalls (k + 1) = l'.afterCalls k := by
    intro k
    rw [afterCalls, hnext]
  constructor
  case item_eq =>
    intro k hk
    cases k with
    | zero => exact congrArg Prod.fst hnext
    | succ k =>
      rw [item, hafter]
      exact later.item_eq k (Nat.lt_of_succ_lt_succ hk)
  case readFrom =>
    intro k hk
    cases k with
    | zero => exact hread
    | succ k => exact later.readFrom k (Nat.lt_of_succ_lt_succ hk)
  case rest_eq =>
    intro k hk
    cases k with
    | zero =>
      rw [hafter]
      exact hrest
    | succ k =>
      rw [hafter, hafter]
      exact later.rest_eq k (Nat.lt_of_succ_lt_succ hk)
  case ends =>
    rw [List.length_cons, hafter]
    exact later.ends

theorem piece_ne_nil (h : l.Reading pieces ending) : ∀ p ∈ pieces, p.2 ≠ [] := by
  intro p hp
  obtain ⟨k, hk, rfl⟩ := List.getElem_of_mem hp
  exact (h.readFrom k hk).ne_nil

theorem item_length (h : l.Reading pieces ending) : l.item pieces.length = ending.item :=
  congrArg Prod.fst h.ends.next_eq

/-- The pieces taken so far and the text that is left make up the text. -/
theorem eq_flatten_append (h : l.Reading pieces ending) {k : ℕ} (hk : k ≤ pieces.length) :
    l.rest = ((pieces.take k).map Prod.snd).flatten ++ (l.afterCalls k).rest := by
  induction k with
  | zero => rfl
  | succ k ih =>
    have hlt : k < pieces.length := hk
    rw [ih hlt.le, h.rest_eq k hlt, List.take_succ_eq_append_getElem hlt, List.map_append,
      List.flatten_append, List.append_assoc]
    simp only [List.map_cons, List.map_nil, List.flatten_cons, List.flatten_nil, List.append_nil]

/-- Every piece takes up text. -/
theorem length_add_length_rest_le (h : l.Reading pieces ending) :
    pieces.length + (l.afterCalls pieces.length).rest.length ≤ l.rest.length := by
  have hsplit := h.eq_flatten_append le_rfl
  rw [List.take_length] at hsplit
  have hlength : pieces.length ≤ (pieces.map Prod.snd).flatten.length := by
    rw [List.length_flatten, List.map_map, ← List.length_map (List.length ∘ Prod.snd)]
    apply List.length_le_sum_of_one_le
    intro n hn
    obtain ⟨p, hp, rfl⟩ := List.mem_map.mp hn
    exact List.length_pos_of_ne_nil (h.piece_ne_nil p hp)
  rw [hsplit, List.length_append]
  omega

/-- After the end no text is left, and no call returns anything. -/
theorem of_length_lt (h : l.Reading pieces ending) {k : ℕ} (hk : pieces.length < k) :
    l.item k = none ∧ (l.afterCalls k).rest = [] := by
  have hend : (l.afterCalls (pieces.length + 1)).rest = [] := by
    rw [afterCalls_add_one, h.ends.next_eq]
  have hrest := rest_afterCalls_of_le hend hk
  exact ⟨next_fst_of_rest_eq_nil hrest, hrest⟩

/-- The call with the number of the characters, counted from zero, returns nothing. -/
theorem item_length_rest (h : l.Reading pieces ending) : l.item l.rest.length = none := by
  have hle := h.length_add_length_rest_le
  by_cases hk : pieces.length < l.rest.length
  · exact (h.of_length_lt hk).1
  · -- every token took up one character, and nothing is left
    have hlength : l.rest.length = pieces.length := by omega
    have hrest : (l.afterCalls pieces.length).rest = [] := List.eq_nil_of_length_eq_zero (by omega)
    rw [hlength]
    exact next_fst_of_rest_eq_nil hrest

theorem length_le (h : l.Reading pieces ending) (h' : l.Reading pieces' ending') :
    pieces.length ≤ pieces'.length := by
  by_contra hlt
  have hitem := h.item_eq pieces'.length (not_le.mp hlt)
  rw [h'.item_length] at hitem
  exact ending'.item_ne_token _ hitem

theorem unique (h : l.Reading pieces ending) (h' : l.Reading pieces' ending') :
    pieces = pieces' ∧ ending = ending' := by
  have hlength : pieces.length = pieces'.length := le_antisymm (h.length_le h') (h'.length_le h)
  constructor
  · apply List.ext_getElem hlength
    intro k hk hk'
    have htoken : pieces[k].1 = pieces'[k].1 := by
      have hitem := (h.item_eq k hk).symm.trans (h'.item_eq k hk')
      injection hitem with hitem
      injection hitem
    have hpiece : pieces[k].2 = pieces'[k].2 :=
      List.append_cancel_right ((h.rest_eq k hk).symm.trans (h'.rest_eq k hk'))
    exact Prod.ext htoken hpiece
  · have hends := h.ends
    rw [hlength] at hends
    exact hends.unique h'.ends

end Reading

/-- A run is a reading. -/
theorem exists_reading (l : Lexer) :
    ∃ pieces, pieces.map Prod.fst = l.run.tokens ∧ l.Reading pieces l.run.ending := by
  induction l using Lexer.run.induct with
  | case1 l token l' hnext ih =>
    obtain ⟨pieces, htokens, later⟩ := ih
    obtain ⟨hscan, -, -⟩ := next_eq_token_iff.mp hnext
    obtain ⟨piece, hscanned, hrest⟩ := Token.scan_eq_some_iff.mp hscan
    rw [run_of_token hnext, ← htokens]
    exact ⟨(token, piece) :: pieces, rfl, .cons hnext hscanned.readFrom hrest later⟩
  | case2 l error l' hnext =>
    rw [run_of_error hnext]
    exact ⟨[], rfl, .nil (.of_error hnext)⟩
  | case3 l l' hnext =>
    have hscan := next_fst_eq_none_iff.mp (congrArg Prod.fst hnext)
    rw [run_of_none hscan]
    exact ⟨[], rfl, .nil (.of_none hscan)⟩

/-- A text is read in pieces, none of them empty, up to one of the three ends. At each call until
then the pieces taken and the text that is left make up the text. An unknown event is returned once
and last. No later than after as many calls as there are characters a call returns nothing, and from
then on every call does, with no text left. -/
theorem exists_pieces (text : String) (events : List String) :
    ∃ pieces : List (Token × List Char),
      pieces.map Prod.fst = (start text events).run.tokens ∧
      (start text events).Reading pieces (start text events).run.ending ∧
      (∀ k, ((start text events).afterCalls k).events = events) ∧
      (∀ piece ∈ pieces, piece.2 ≠ []) ∧
      (∀ k ≤ pieces.length, text.toList =
        ((pieces.take k).map Prod.snd).flatten ++ ((start text events).afterCalls k).rest) ∧
      (start text events).item pieces.length = (start text events).run.ending.item ∧
      (∀ k, pieces.length < k → (start text events).item k = none ∧
        ((start text events).afterCalls k).rest = []) ∧
      (start text events).item text.length = none ∧
      (∀ j k, (start text events).item j = none → j ≤ k → (start text events).item k = none ∧
        ((start text events).afterCalls (k + 1)).rest = []) ∧
      ∀ pieces' ending', (start text events).Reading pieces' ending' →
        pieces' = pieces ∧ ending' = (start text events).run.ending := by
  obtain ⟨pieces, htokens, hreading⟩ := (start text events).exists_reading
  refine ⟨pieces, htokens, hreading, events_afterCalls _, hreading.piece_ne_nil,
    fun k => hreading.eq_flatten_append, hreading.item_length, fun k => hreading.of_length_lt,
    hreading.item_length_rest, fun j k => item_of_le, ?_⟩
  intro pieces' ending' h
  exact h.unique hreading

/-- No number follows the equals sign, so what is left is dropped. -/
example : ((start "A = B" ["A", "B"]).afterCalls 2).rest = ['=', ' ', 'B'] ∧
    (start "A = B" ["A", "B"]).item 2 = none :=
  ⟨rfl, rfl⟩

end Lexer

end Credence
