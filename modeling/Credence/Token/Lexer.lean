import Credence.Decimal.Numeral
import Credence.Token

/-!
# From text to tokens

At the front of a text the first of these that is there makes the next token: a run of blanks, a
parenthesis, the letters `and`, the letters `or`, an equals sign with a number after it, a label.
Keywords need not end where they end a word, so `orange` is the keyword `or` and the label `ange`.

Only an equals sign without a number is no token at all. It ends the text: what follows is dropped.
A label that is not among the declared events ends the text as well, with an error.
-/

namespace Credence

namespace Token

/-- Labels consist of any characters but blanks, closing parentheses and equals signs. -/
def isLabelChar (c : Char) : Bool :=
  !Text.isBlank c && c != ')' && c != '='

def scanEquals (text : List Char) : Option (Token × List Char) :=
  (Numeral.scan (Text.trimStart text)).map fun (numeral, rest) =>
    (.equals numeral.value.toFloat, rest)

/-- The token at the front of a text, and what follows it. -/
def scan (text : List Char) : Option (Token × List Char) :=
  match text with
  | [] => none
  | '(' :: rest => some (.openParen, rest)
  | ')' :: rest => some (.closeParen, rest)
  -- keywords come before labels, whatever follows them
  | 'a' :: 'n' :: 'd' :: rest => some (.and, rest)
  | 'o' :: 'r' :: rest => some (.or, rest)
  -- no other rule takes an equals sign
  | '=' :: rest => scanEquals rest
  | c :: rest =>
    if Text.isBlank c then some (.blank, Text.trimStart rest)
    else
      some (.event (String.ofList (c :: rest.takeWhile isLabelChar)),
        rest.dropWhile isLabelChar)

/-! ## Every token takes up text -/

theorem length_dropWhile_le (p : Char → Bool) (text : List Char) :
    (text.dropWhile p).length ≤ text.length :=
  (List.dropWhile_sublist p).length_le

theorem length_of_scanNumeral {text rest : List Char} {n : Numeral}
    (h : Numeral.scan text = some (n, rest)) : rest.length ≤ text.length := by
  have hle := length_dropWhile_le Char.isDigit text
  simp only [Numeral.scan] at h
  split at h
  · next after hd =>
    rw [hd, List.length_cons] at hle
    split at h
    · simp only [Numeral.ofWhole, Option.ite_none_left_eq_some, Option.some.injEq,
        Prod.mk.injEq] at h
      rw [← h.2.2, List.length_cons]
      exact hle
    · simp only [Option.some.injEq, Prod.mk.injEq] at h
      have := length_dropWhile_le Char.isDigit after
      rw [← h.2]
      omega
  · simp only [Numeral.ofWhole, Option.ite_none_left_eq_some, Option.some.injEq,
      Prod.mk.injEq] at h
    rw [← h.2.2]
    exact hle

theorem length_lt_of_scan {text rest : List Char} {token : Token}
    (h : scan text = some (token, rest)) : rest.length < text.length := by
  unfold scan at h
  split at h
  case h_1 => simp at h
  case h_6 rest' =>
    simp only [scanEquals, Option.map_eq_some_iff, Prod.exists, Prod.mk.injEq] at h
    obtain ⟨n, r, hscan, -, rfl⟩ := h
    have := length_of_scanNumeral hscan
    have := length_dropWhile_le Text.isBlank rest'
    simp only [Text.trimStart, List.length_cons] at *
    omega
  case h_7 c rest' _ _ _ _ _ =>
    split at h <;>
      · simp only [Option.some.injEq, Prod.mk.injEq] at h
        rw [← h.2, List.length_cons, Nat.lt_succ_iff]
        exact length_dropWhile_le _ _
  all_goals
    simp only [Option.some.injEq, Prod.mk.injEq] at h
    rw [← h.2]
    simp only [List.length_cons]
    omega

end Token

/-! ## Lexers -/

/-- The text still to be read, and the labels of the declared events. -/
structure Lexer where
  rest : List Char
  events : List String

namespace Lexer

def start (text : String) (events : List String) : Lexer := ⟨text.toList, events⟩

/-- The next token, and the lexer past it. At the end, or when nothing more can be read, there is
no token, and no text is left. -/
def next (l : Lexer) : Option (Except UnknownEvent Token) × Lexer :=
  match Token.scan l.rest with
  | none => (none, { l with rest := [] })
  | some (.event label, rest) =>
    if label ∈ l.events then (some (.ok (.event label)), { l with rest })
    else (some (.error ⟨label⟩), { l with rest := [] })
  | some (token, rest) => (some (.ok token), { l with rest })

theorem length_rest_lt_of_next {l l' : Lexer} {token : Token}
    (h : l.next = (some (.ok token), l')) : l'.rest.length < l.rest.length := by
  unfold next at h
  split at h
  · simp at h
  · next hscan =>
    split at h
    · simp only [Prod.mk.injEq] at h
      rw [← h.2]
      exact Token.length_lt_of_scan hscan
    · simp at h
  · next hscan =>
    simp only [Prod.mk.injEq] at h
    rw [← h.2]
    exact Token.length_lt_of_scan hscan

/-- How the reading of a text came to its end. -/
inductive Ending where
  | complete
  | unknownEvent (error : UnknownEvent)
  /-- No token was at the front of this text, and it was dropped. -/
  | dropped (rest : List Char)
  deriving DecidableEq

/-- The tokens of a text, blanks included, and how it ended. -/
structure Run where
  tokens : List Token
  ending : Ending
  deriving DecidableEq

def run (l : Lexer) : Run :=
  match _h : l.next with
  | (some (.ok token), l') =>
    let later := l'.run
    ⟨token :: later.tokens, later.ending⟩
  | (some (.error error), _) => ⟨[], .unknownEvent error⟩
  | (none, _) => ⟨[], if l.rest = [] then .complete else .dropped l.rest⟩
termination_by l.rest.length
decreasing_by exact length_rest_lt_of_next (by assumption)

/-- The tokens that mean something, unless an unknown event was among them. -/
def Run.significant (r : Run) : Except UnknownEvent (List Token) :=
  match r.ending with
  | .unknownEvent error => .error error
  | _ => .ok (r.tokens.filter (· ≠ .blank))

end Lexer

def lex (text : String) (events : List String) : Except UnknownEvent (List Token) :=
  (Lexer.start text events).run.significant

end Credence
