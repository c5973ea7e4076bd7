import Mathlib
import Credence.Proofs.Token.Pattern
import Credence.Proofs.Token.Text

/-!
# The rules behind the tokens

Each kind of token has a pattern, and the first rule whose pattern matches makes the next token. A
number is any digits, perhaps a point, and at least one digit. To find that last digit the pattern
may have to leave out a point it has taken, and take back a digit, and still the match is the longest
number at the front of the text.
-/

namespace Credence

/-! ## 1. The number pattern -/

namespace Pattern

/-- At least one digit, perhaps after a point. -/
def lastDigits : Pattern := .seq (.optional (.literal ['.'])) (.plus Char.isDigit)

def number : Pattern := .seq (.many Char.isDigit) lastDigits

/-- The point is tried first, and then the digits on their own. -/
theorem first?_lastDigits (text : List Char) :
    lastDigits.first? text =
      ((seq (literal ['.']) (plus Char.isDigit)).first? text).or
        ((plus Char.isDigit).first? text) :=
  first?_optional_seq _ _ text

theorem first?_lastDigits_point {after : List Char} (h : after.takeWhile Char.isDigit ≠ []) :
    lastDigits.first? ('.' :: after) =
      some ⟨'.' :: after.takeWhile Char.isDigit, none, after.dropWhile Char.isDigit⟩ := by
  have hpoint := first?_literal_seq ['.'] (plus Char.isDigit) after
  rw [first?_plus h] at hpoint
  rw [first?_lastDigits]
  exact congrArg (Option.or · _) hpoint

theorem first?_lastDigits_digit {text : List Char} (h : text.takeWhile Char.isDigit ≠ []) :
    lastDigits.first? text =
      some ⟨text.takeWhile Char.isDigit, none, text.dropWhile Char.isDigit⟩ := by
  have hpoint : ¬ ['.'] <+: text := by
    rintro ⟨_, rfl⟩
    exact h rfl
  rw [first?_lastDigits, first?_literal_seq_eq_none hpoint, Option.none_or,
    first?_plus h]

theorem first?_lastDigits_eq_none {text : List Char} (hdigit : ∀ c ∈ text.head?, c.isDigit = false)
    (hpoint : ∀ after, text = '.' :: after → ∀ c ∈ after.head?, c.isDigit = false) :
    lastDigits.first? text = none := by
  rw [first?_lastDigits, first?_plus_eq_none hdigit, Option.or_none]
  by_cases hfront : ['.'] <+: text
  · obtain ⟨after, rfl⟩ := hfront
    rw [first?_literal_seq, first?_plus_eq_none (hpoint after rfl), Option.map_none]
  · exact first?_literal_seq_eq_none hfront _

/-- The first match is the longest number. -/
theorem first?_number (text : List Char) :
    number.first? text =
      (Numeral.scan text).map fun result => ⟨result.1.text, none, result.2⟩ := by
  show (seq (many Char.isDigit) lastDigits).first? text = _
  have hwhole : ∀ c ∈ text.takeWhile Char.isDigit, c.isDigit = true :=
    Numeral.isDigit_of_mem_takeWhile
  have hstop := Text.head_dropWhile Char.isDigit text
  obtain ⟨after, hdrop, hne, hscan⟩ | ⟨hnil, hscan⟩ := Numeral.scan_cases text
  · -- with a digit after the point, all digits before it are kept
    have hlast := first?_lastDigits_point hne
    rw [← hdrop] at hlast
    rw [first?_many_seq hlast, hscan, Option.map_some, Numeral.text_of_ne_nil hne]
    rfl
  · have hnone : lastDigits.first? (text.dropWhile Char.isDigit) = none :=
      first?_lastDigits_eq_none hstop fun after hdrop =>
        Numeral.head_of_takeWhile_eq_nil (hnil after hdrop)
    have hsplit := List.takeWhile_append_dropWhile (p := Char.isDigit) (l := text)
    generalize text.takeWhile Char.isDigit = whole at *
    generalize text.dropWhile Char.isDigit = after at *
    rw [hscan, ← hsplit]
    obtain rfl | ⟨front, last, rfl⟩ := List.eq_nil_or_concat' whole
    · -- there is no digit to give back
      rw [List.nil_append, first?_many_seq_of_head hstop, hnone]
      rfl
    · -- the last of the digits is given back
      obtain ⟨hfront, hlast⟩ := List.forall_mem_append.mp hwhole
      obtain ⟨htake, hdrop⟩ := Text.takeWhile_run hlast hstop
      rw [List.singleton_append] at htake hdrop
      have hgiven := first?_lastDigits_digit
        (takeWhile_cons_ne_nil (hlast last List.mem_cons_self) after)
      rw [htake, hdrop] at hgiven
      rw [List.append_assoc, List.singleton_append,
        first?_many_seq_append hfront (hlast last List.mem_cons_self) hstop hnone hgiven,
        Numeral.ofWhole_of_ne_nil (by simp)]
      rfl

end Pattern

/-! ## 2. The value of a number -/

/-- The value of a row of digits with at most one point in front of, between or after them. What else
may be written for a double, such as signs and exponents, is not read. -/
def Decimal.read? (text : List Char) : Option Decimal :=
  let whole := text.takeWhile Char.isDigit
  match text.dropWhile Char.isDigit with
  | [] => if whole = [] then none else some (Numeral.value ⟨whole, []⟩)
  | '.' :: fraction =>
    if fraction.all Char.isDigit ∧ whole ++ fraction ≠ [] then
      some (Numeral.value ⟨whole, fraction⟩)
    else none
  | _ => none

theorem Decimal.read?_text {n : Numeral} (hn : n.Proper) : read? n.text = some n.value := by
  obtain ⟨whole, fraction⟩ := n
  by_cases hfraction : fraction = []
  · subst hfraction
    have hstop : ∀ c ∈ ([] : List Char).head?, c.isDigit = false := by simp
    have hrun := Text.takeWhile_run hn.whole hstop
    rw [List.append_nil] at hrun
    rw [Numeral.text_of_nil, read?, hrun.1, hrun.2]
    exact if_neg (hn.nonempty rfl)
  · have hstop : ∀ c ∈ ('.' :: fraction).head?, c.isDigit = false := by
      intro c hc
      cases hc
      rfl
    have hrun := Text.takeWhile_run hn.whole hstop
    rw [Numeral.text_of_ne_nil hfraction, read?, hrun.1, hrun.2]
    exact if_pos ⟨List.all_eq_true.mpr hn.fraction, List.append_ne_nil_of_right_ne_nil _ hfraction⟩

/-! ## 3. The rules -/

namespace Token

/-- A kind of token: the pattern of its text, and the token that is made from a match. -/
structure Rule where
  pattern : Pattern
  token : Match → Option Token

namespace Rule

/-- The token at the front of a text, if the rule matches there, and what follows it. -/
def take (rule : Rule) (text : List Char) : Option (Token × List Char) := do
  let m ← rule.pattern.first? text
  let token ← rule.token m
  return (token, m.rest)

def blank : Rule := ⟨.plus Text.isBlank, fun _ => some .blank⟩

def openParen : Rule := ⟨.literal ['('], fun _ => some .openParen⟩

def closeParen : Rule := ⟨.literal [')'], fun _ => some .closeParen⟩

def and : Rule := ⟨.literal ['a', 'n', 'd'], fun _ => some .and⟩

def or : Rule := ⟨.literal ['o', 'r'], fun _ => some .or⟩

/-- An equals sign, blanks and a number, of which the value is read. -/
def equals : Rule where
  pattern := .seq (.literal ['=']) (.seq (.many Text.isBlank) (.group .number))
  token m := do
    let number ← m.captured
    let value ← Decimal.read? number
    return .equals value.toFloat

def event : Rule := ⟨.plus isLabelChar, fun m => some (.event (String.ofList m.piece))⟩

end Rule

/-- The rules in the order in which they are tried. -/
def rules : List Rule := [.blank, .openParen, .closeParen, .and, .or, .equals, .event]

namespace Rule

variable {rule : Rule} {text : List Char}

theorem take_eq_none (h : rule.pattern.first? text = none) : rule.take text = none := by
  show (rule.pattern.first? text).bind _ = none
  rw [h, Option.bind_none]

theorem take_eq_some {m : Match} {token : Token} (h : rule.pattern.first? text = some m)
    (htoken : rule.token m = some token) : rule.take text = some (token, m.rest) := by
  show (rule.pattern.first? text).bind _ = _
  rw [h, Option.bind_some]
  show (rule.token m).bind _ = _
  rw [htoken, Option.bind_some]
  rfl

/-- The pattern for an equals sign matches where a number is scanned after it. -/
theorem first?_equals (after : List Char) :
    equals.pattern.first? ('=' :: after) =
      (Numeral.scan (Text.trimStart after)).map fun result =>
        ⟨'=' :: (after.takeWhile Text.isBlank ++ result.1.text), some result.1.text, result.2⟩ := by
  have hnumber (text : List Char) : (Pattern.group .number).first? text =
      (Numeral.scan text).map fun result => ⟨result.1.text, some result.1.text, result.2⟩ := by
    rw [Pattern.first?_group, Pattern.first?_number, Option.map_map]
    rfl
  have hliteral := Pattern.first?_literal_seq ['=']
    (.seq (.many Text.isBlank) (.group .number)) after
  refine hliteral.trans ?_
  cases hscan : Numeral.scan (Text.trimStart after) with
  | none =>
    have hnone : (Pattern.group .number).first? (after.dropWhile Text.isBlank) = none := by
      rw [hnumber, ← Text.trimStart, hscan, Option.map_none]
    -- no number begins with a blank that is given back
    rw [Pattern.first?_many_seq_eq_none hnone, Option.map_none, Option.map_none]
    intro c rest hc
    rw [hnumber, Numeral.scan_eq_none, Option.map_none]
    · by_contra hdigit
      rw [isBlank_of_isDigit (Bool.eq_true_of_not_eq_false hdigit)] at hc
      cases hc
    · rintro rfl
      cases hc
  | some result =>
    have hsome := hnumber (after.dropWhile Text.isBlank)
    rw [← Text.trimStart, hscan, Option.map_some] at hsome
    rw [Pattern.first?_many_seq hsome, Option.map_some, Option.map_some]
    rfl

theorem take_equals (after : List Char) : equals.take ('=' :: after) = scanEquals after := by
  have hfirst := first?_equals after
  cases hscan : Numeral.scan (Text.trimStart after) with
  | none =>
    rw [hscan, Option.map_none] at hfirst
    rw [take_eq_none hfirst, scanEquals, hscan, Option.map_none]
  | some result =>
    rw [hscan, Option.map_some] at hfirst
    have hread := Decimal.read?_text (Numeral.spec_of_scan hscan).1
    have htoken : equals.token ⟨'=' :: (after.takeWhile Text.isBlank ++ result.1.text),
        some result.1.text, result.2⟩ = some (.equals result.1.value.toFloat) := by
      show (Decimal.read? result.1.text).bind _ = _
      rw [hread]
      rfl
    rw [take_eq_some hfirst htoken, scanEquals, hscan, Option.map_some]

end Rule

/-- No other rule takes an equals sign. -/
theorem rules_equals (after : List Char) :
    rules.findSome? (·.take ('=' :: after)) = Rule.equals.take ('=' :: after) := by
  have hbefore : ([.blank, .openParen, .closeParen, .and, .or] : List Rule).findSome?
      (·.take ('=' :: after)) = none := rfl
  have hevent : Rule.event.take ('=' :: after) = none := rfl
  have hrules : rules =
      ([.blank, .openParen, .closeParen, .and, .or] : List Rule) ++ [.equals, .event] := rfl
  rw [hrules, List.findSome?_append, hbefore, Option.none_or, List.findSome?_cons,
    List.findSome?_singleton, hevent]
  cases Rule.equals.take ('=' :: after) <;> rfl

theorem rules_blank {c : Char} (hc : Text.isBlank c = true) (after : List Char) :
    rules.findSome? (·.take (c :: after)) = some (.blank, Text.trimStart after) := by
  have hfirst := Pattern.first?_plus (Pattern.takeWhile_cons_ne_nil hc after)
  have hblank : Rule.blank.take (c :: after) = some (.blank, _) := Rule.take_eq_some hfirst rfl
  rw [rules, List.findSome?_cons, hblank, List.dropWhile_cons_of_pos hc]
  rfl

/-- A label is what no other rule takes. -/
theorem rules_label {c : Char} {after : List Char} (hc : isLabelChar c = true) (hopen : c ≠ '(')
    (hand : ∀ rest, c = 'a' → after = 'n' :: 'd' :: rest → False)
    (hor : ∀ rest, c = 'o' → after = 'r' :: rest → False) :
    rules.findSome? (·.take (c :: after)) =
      some (.event (String.ofList (c :: after.takeWhile isLabelChar)),
        after.dropWhile isLabelChar) := by
  obtain ⟨hblank, hclose, hequals⟩ := isLabelChar_iff.mp hc
  have hfirst := Pattern.first?_plus (Pattern.takeWhile_cons_ne_nil hc after)
  have hevent : Rule.event.take (c :: after) = some (.event _, _) := Rule.take_eq_some hfirst rfl
  have hbefore : ([.blank, .openParen, .closeParen, .and, .or, .equals] : List Rule).findSome?
      (·.take (c :: after)) = none := by
    simp only [List.findSome?_eq_none_iff, List.forall_mem_cons]
    refine ⟨?blank, ?openParen, ?closeParen, ?and, ?or, ?equals, List.forall_mem_nil _⟩
    all_goals apply Rule.take_eq_none
    case blank =>
      apply Pattern.first?_plus_eq_none
      intro d hd
      cases hd
      exact hblank
    case equals =>
      apply Pattern.first?_literal_seq_eq_none
      rintro ⟨rest, heq⟩
      cases heq
      exact hequals rfl
    all_goals
      apply Pattern.first?_literal_eq_none
      rintro ⟨rest, heq⟩
      cases heq
    case openParen => exact hopen rfl
    case closeParen => exact hclose rfl
    case and => exact hand _ rfl rfl
    case or => exact hor _ rfl rfl
  have hrules : rules =
      ([.blank, .openParen, .closeParen, .and, .or, .equals] : List Rule) ++ [.event] := rfl
  rw [hrules, List.findSome?_append, hbefore, Option.none_or, List.findSome?_singleton, hevent,
    List.takeWhile_cons_of_pos hc, List.dropWhile_cons_of_pos hc]

/-- The next token is made by the first rule that matches. -/
theorem scan_eq_rules (text : List Char) : scan text = rules.findSome? (·.take text) := by
  unfold scan
  split
  case h_1 => rfl
  case h_2 => rfl
  case h_3 => rfl
  case h_4 => rfl
  case h_5 => rfl
  case h_6 after => rw [rules_equals, Rule.take_equals]
  case h_7 c after hopen hclose hand hor hequals =>
    split
    next hc => rw [rules_blank hc]
    next hc =>
      have hlabel : isLabelChar c = true :=
        isLabelChar_iff.mpr ⟨Bool.eq_false_of_not_eq_true hc, hclose, hequals⟩
      rw [rules_label hlabel hopen hand hor]

end Token
end Credence
