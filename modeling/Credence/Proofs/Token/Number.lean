import Mathlib
import Credence.Proofs.Token.Pieces
import Credence.Proofs.Token.Rules

/-!
# The number after an equals sign

The rule for equals signs matches where a digit follows, or a point and a digit, past any blanks.
What it captures is then the longest number there, so it can be read, and the text that is left
begins with nothing that would make the number longer.
-/

namespace Credence
namespace Token

/-! ## 1. Numbers -/

/-- Digits, perhaps a point, and at least one digit. -/
def IsNumber (text : List Char) : Prop :=
  ∃ whole point digits : List Char, text = whole ++ point ++ digits ∧
    (∀ c ∈ whole, c.isDigit = true) ∧ (point = [] ∨ point = ['.']) ∧
    digits ≠ [] ∧ ∀ c ∈ digits, c.isDigit = true

/-- The text begins with a digit, or with a point and a digit. -/
def BeginsNumber (text : List Char) : Prop :=
  ∃ (c : Char) (rest : List Char), c.isDigit = true ∧ (text = c :: rest ∨ text = '.' :: c :: rest)

/-- After an equals sign come any blanks, a number that is as long as it can be, and a rest into
which the number does not go on. -/
structure TakesNumber (after number rest : List Char) : Prop where
  split : ∃ blanks : List Char, (∀ c ∈ blanks, Text.isBlank c = true) ∧
    after = blanks ++ number ++ rest
  form : IsNumber number
  longest : ∀ number', IsNumber number' → number' <+: number ++ rest →
    number'.length ≤ number.length
  digit : ∀ c ∈ rest.head?, c.isDigit = false
  point : '.' ∉ number → ∀ c rest', rest = '.' :: c :: rest' → c.isDigit = false

theorem isNumber_iff {text : List Char} :
    IsNumber text ↔ ∃ n : Numeral, n.Proper ∧ n.text = text := by
  constructor
  · rintro ⟨whole, point, digits, rfl, hwhole, rfl | rfl, hne, hdigits⟩
    · refine ⟨⟨whole ++ digits, []⟩, ⟨?_, List.forall_mem_nil _, fun _ => ?_⟩, ?_⟩
      · exact List.forall_mem_append.mpr ⟨hwhole, hdigits⟩
      · exact List.append_ne_nil_of_right_ne_nil _ hne
      · rw [Numeral.text_of_nil, List.append_nil]
    · refine ⟨⟨whole, digits⟩, ⟨hwhole, hdigits, fun hnil => absurd hnil hne⟩, ?_⟩
      rw [Numeral.text_of_ne_nil hne, List.append_assoc, List.singleton_append]
  · rintro ⟨⟨whole, fraction⟩, hn, rfl⟩
    by_cases hfraction : fraction = []
    · subst hfraction
      exact ⟨[], [], whole, rfl, List.forall_mem_nil _, .inl rfl, hn.nonempty rfl, hn.whole⟩
    · refine ⟨whole, ['.'], fraction, ?_, hn.whole, .inr rfl, hfraction, hn.fraction⟩
      rw [Numeral.text_of_ne_nil hfraction, List.append_assoc, List.singleton_append]

theorem beginsNumber_iff {text : List Char} :
    BeginsNumber text ↔ ∃ (n : Numeral) (rest : List Char), n.Proper ∧ text = n.text ++ rest := by
  constructor
  · rintro ⟨c, rest, hc, rfl | rfl⟩
    · exact ⟨⟨[c], []⟩, rest, ⟨List.forall_mem_singleton.mpr hc, List.forall_mem_nil _,
        fun _ => List.cons_ne_nil _ _⟩, rfl⟩
    · exact ⟨⟨[], [c]⟩, rest, ⟨List.forall_mem_nil _, List.forall_mem_singleton.mpr hc,
        fun hnil => absurd hnil (List.cons_ne_nil _ _)⟩, rfl⟩
  · rintro ⟨⟨whole, fraction⟩, rest, hn, rfl⟩
    -- the first digit is before the point, or the first one after it
    cases whole with
    | cons c whole =>
      obtain ⟨left, hleft⟩ := Numeral.whole_prefix_text ⟨c :: whole, fraction⟩
      rw [← hleft]
      exact ⟨c, whole ++ left ++ rest, hn.whole c List.mem_cons_self, .inl (by simp)⟩
    | nil =>
      cases fraction with
      | nil => exact absurd rfl (hn.nonempty rfl)
      | cons c fraction =>
        exact ⟨c, fraction ++ rest, hn.fraction c List.mem_cons_self, .inr rfl⟩

theorem numberFollows_iff {after : List Char} :
    NumberFollows after ↔ ∃ blanks text : List Char, (∀ c ∈ blanks, Text.isBlank c = true) ∧
      after = blanks ++ text ∧ BeginsNumber text := by
  constructor
  · rintro ⟨blanks, n, rest, hblank, hn, rfl⟩
    exact ⟨blanks, n.text ++ rest, hblank, List.append_assoc _ _ _,
      beginsNumber_iff.mpr ⟨n, rest, hn, rfl⟩⟩
  · rintro ⟨blanks, text, hblank, rfl, hbegins⟩
    obtain ⟨n, rest, hn, rfl⟩ := beginsNumber_iff.mp hbegins
    exact ⟨blanks, n, rest, hblank, hn, (List.append_assoc _ _ _).symm⟩

theorem isSome_first?_equals_iff {after : List Char} :
    (Rule.equals.pattern.first? ('=' :: after)).isSome ↔ NumberFollows after := by
  rw [Rule.first?_equals, Option.isSome_map, ← not_iff_not, ← scanEquals_eq_none_iff, scanEquals,
    Option.map_eq_none_iff, Bool.not_eq_true, Option.isSome_eq_false_iff, Option.isNone_iff_eq_none]

theorem takesNumber_of_scan {after rest : List Char} {n : Numeral}
    (h : Numeral.scan (Text.trimStart after) = some (n, rest)) : TakesNumber after n.text rest := by
  obtain ⟨hn, htrim, hstops⟩ := Numeral.spec_of_scan h
  obtain ⟨blanks, hblank, hsplit⟩ := exists_blanks after
  constructor
  case split =>
    refine ⟨blanks, hblank, ?_⟩
    rw [List.append_assoc, ← htrim]
    exact hsplit
  case form => exact isNumber_iff.mpr ⟨n, hn, rfl⟩
  case longest =>
    rintro number' hnumber' ⟨rest', hrest'⟩
    obtain ⟨n', hn', rfl⟩ := isNumber_iff.mp hnumber'
    exact (Numeral.text_prefix_of_scan h hn' (htrim.trans hrest'.symm)).length_le
  case digit => exact hstops.digit
  case point =>
    intro hpoint c rest' hrest'
    have hfraction : n.fraction = [] := by
      by_contra hfraction
      rw [Numeral.text_of_ne_nil hfraction] at hpoint
      exact hpoint (List.mem_append_right _ List.mem_cons_self)
    exact hstops.point hfraction (c :: rest') hrest' c rfl

/-- An equals sign is a token only by its own rule. The pattern of the rule matches if a digit, or a
point and a digit, comes after the sign and any blanks. Then it captures the longest number there,
which can always be read, and the number goes no further. -/
theorem equals_takes_longest_number (after : List Char) :
    scan ('=' :: after) = Rule.equals.take ('=' :: after) ∧
    ((Rule.equals.pattern.first? ('=' :: after)).isSome ↔
      ∃ blanks text : List Char, (∀ c ∈ blanks, Text.isBlank c = true) ∧ after = blanks ++ text ∧
        BeginsNumber text) ∧
    ∀ m, Rule.equals.pattern.first? ('=' :: after) = some m →
      ∃ number value, m.captured = some number ∧ TakesNumber after number m.rest ∧
        Decimal.read? number = some value ∧
        scan ('=' :: after) = some (.equals value.toFloat, m.rest) := by
  have hscan : scan ('=' :: after) = Rule.equals.take ('=' :: after) := by
    rw [scan_eq_rules, rules_equals]
  refine ⟨hscan, isSome_first?_equals_iff.trans numberFollows_iff, fun m hm => ?_⟩
  rw [Rule.first?_equals, Option.map_eq_some_iff] at hm
  obtain ⟨⟨n, rest⟩, hnumeral, rfl⟩ := hm
  have hread := Decimal.read?_text (Numeral.spec_of_scan hnumeral).1
  refine ⟨n.text, n.value, rfl, takesNumber_of_scan hnumeral, hread, ?_⟩
  rw [hscan, Rule.take_equals, scanEquals, hnumeral, Option.map_some]

/-- Without a digit after it the point is left out, and the last digit is taken back. -/
theorem equals_takes_longest_number_trailing_point :
    TakesNumber " 50.".toList "50".toList ".".toList ∧
      scan "= 50.".toList = some (.equals 50, ".".toList) := by
  have hfirst : Rule.equals.pattern.first? ('=' :: " 50.".toList) =
      some ⟨"= 50".toList, some "50".toList, ".".toList⟩ := by decide +kernel
  obtain ⟨number, value, hnumber, htakes, hread, hscan⟩ :=
    (equals_takes_longest_number " 50.".toList).2.2 _ hfirst
  cases hnumber
  have hvalue : Decimal.read? "50".toList = some ⟨50, 0⟩ := by decide +kernel
  cases hvalue.symm.trans hread
  have hfloat : (⟨50, 0⟩ : Decimal).toFloat = 50 := by decide +kernel
  rw [hfloat] at hscan
  exact ⟨htakes, hscan⟩

end Token
end Credence
