import Mathlib
import Credence.Proofs.Decimal.Numeral
import Credence.Proofs.Token.Lexer

/-!
# Texts of tokens

A label is taken out of a text as it stands there if it contains nothing that ends a label, does not
begin like another token, and does not go on into what follows. All labels that are taken are of that
kind. After an equals sign, the text of a double is taken as that double if it is plain, and else it
is no probability.
-/

namespace Credence

namespace Token

/-! ## 1. Labels -/

/-- The labels that can be written in an expression. -/
structure IsLabel (label : String) : Prop where
  nonempty : label ≠ ""
  blank : ∀ c ∈ label.toList, Text.isBlank c = false
  closeParen : ')' ∉ label.toList
  equals : '=' ∉ label.toList
  openParen : ¬ ['('] <+: label.toList
  and : ¬ ['a', 'n', 'd'] <+: label.toList
  or : ¬ ['o', 'r'] <+: label.toList

/-- A label does not go on into the text. -/
def Stops (rest : List Char) : Prop := ∀ c ∈ rest.head?, isLabelChar c = false

theorem isLabelChar_iff {c : Char} :
    isLabelChar c = true ↔ Text.isBlank c = false ∧ c ≠ ')' ∧ c ≠ '=' := by
  simp [isLabelChar, and_assoc]

theorem IsLabel.isLabelChar {label : String} (h : IsLabel label) :
    ∀ c ∈ label.toList, isLabelChar c = true := by
  intro c hc
  rw [isLabelChar_iff]
  refine ⟨h.blank c hc, ?_, ?_⟩
  · intro heq
    exact h.closeParen (heq ▸ hc)
  · intro heq
    exact h.equals (heq ▸ hc)

theorem stops_cons {c : Char} (h : isLabelChar c = false) (rest : List Char) : Stops (c :: rest) := by
  intro d hd
  cases hd
  exact h

theorem scan_label {label : String} (h : IsLabel label) {rest : List Char} (hrest : Stops rest) :
    scan (label.toList ++ rest) = some (.event label, rest) := by
  obtain ⟨htake, hdrop⟩ := Text.takeWhile_run h.isLabelChar hrest
  rw [eq_comm] at htake hdrop
  have hne : label.toList ≠ [] := by
    intro hnil
    exact h.nonempty (String.toList_eq_nil_iff.mp hnil)
  generalize label.toList ++ rest = text at htake hdrop
  unfold scan
  split
  -- a character that is part of no label leaves nothing for the label
  case h_1 => exact absurd htake hne
  case h_3 after => exact absurd htake hne
  case h_6 after => exact absurd htake hne
  case h_2 after => exact absurd ⟨_, htake.symm⟩ h.openParen
  case h_4 after => exact absurd ⟨_, htake.symm⟩ h.and
  case h_5 after => exact absurd ⟨_, htake.symm⟩ h.or
  case h_7 c after _ _ _ _ _ =>
    have hc : isLabelChar c = true := by
      by_contra hc
      rw [List.takeWhile_cons_of_neg hc] at htake
      exact hne htake
    rw [List.takeWhile_cons_of_pos hc] at htake
    rw [List.dropWhile_cons_of_pos hc] at hdrop
    rw [if_neg (by simp [(isLabelChar_iff.mp hc).1]), ← htake, ← hdrop, String.ofList_toList]

theorem isLabel_ofList {chars : List Char} (hne : chars ≠ [])
    (hchars : ∀ c ∈ chars, isLabelChar c = true) (hopen : ¬ ['('] <+: chars)
    (hand : ¬ ['a', 'n', 'd'] <+: chars) (hor : ¬ ['o', 'r'] <+: chars) :
    IsLabel (String.ofList chars) := by
  have hall : ∀ c ∈ chars, Text.isBlank c = false ∧ c ≠ ')' ∧ c ≠ '=' :=
    fun c hc => isLabelChar_iff.mp (hchars c hc)
  constructor
  case nonempty => simpa using hne
  all_goals rw [String.toList_ofList]
  case blank => exact fun c hc => (hall c hc).1
  case closeParen => exact fun hmem => (hall _ hmem).2.1 rfl
  case equals => exact fun hmem => (hall _ hmem).2.2 rfl
  case openParen => exact hopen
  case and => exact hand
  case or => exact hor

/-- Label characters up to where they stop are a label, unless another token begins the text. -/
theorem isLabel_takeWhile {c : Char} {after : List Char} (hc : isLabelChar c = true)
    (hopen : c ≠ '(') (hand : ∀ rest, c = 'a' → after = 'n' :: 'd' :: rest → False)
    (hor : ∀ rest, c = 'o' → after = 'r' :: rest → False) :
    IsLabel (String.ofList (c :: after.takeWhile isLabelChar)) := by
  have hafter := List.takeWhile_prefix isLabelChar (l := after)
  -- if the label began like another token, so would the text
  apply isLabel_ofList (List.cons_ne_nil _ _)
  · intro d hd
    cases List.mem_cons.mp hd with
    | inl heq => rwa [heq]
    | inr hmem => exact List.mem_takeWhile_imp hmem
  · intro hstart
    exact hopen (List.cons_prefix_cons.mp hstart).1.symm
  · intro hstart
    have hcons := List.cons_prefix_cons.mp hstart
    obtain ⟨r, hr⟩ := hcons.2.trans hafter
    exact hand r hcons.1.symm hr.symm
  · intro hstart
    have hcons := List.cons_prefix_cons.mp hstart
    obtain ⟨r, hr⟩ := hcons.2.trans hafter
    exact hor r hcons.1.symm hr.symm

/-! ## 2. Probabilities -/

theorem isBlank_of_isDigit {c : Char} (h : c.isDigit = true) : Text.isBlank c = false := by
  have hbounds := Char.isDigit_iff_toNat.mp h
  have hzero : '0'.toNat = 48 := rfl
  have hnine : '9'.toNat = 57 := rfl
  simp only [Text.isBlank, Text.inRanges, Text.blankRanges, Text.CharRange.contains, List.any_cons,
    List.any_nil, Bool.or_eq_false_iff, Bool.and_eq_false_iff, decide_eq_false_iff_not, and_true]
  omega

theorem isBlank_of_mem_text {n : Numeral} (h : n.Proper) {c : Char} (hc : c ∈ n.text) :
    Text.isBlank c = false := by
  by_cases hfraction : n.fraction = []
  · unfold Numeral.text at hc
    rw [hfraction] at hc
    exact isBlank_of_isDigit (h.whole c hc)
  · rw [Numeral.text_of_ne_nil hfraction, List.mem_append, List.mem_cons] at hc
    obtain hwhole | rfl | hfraction := hc
    · exact isBlank_of_isDigit (h.whole c hwhole)
    · rfl
    · exact isBlank_of_isDigit (h.fraction c hfraction)

theorem exists_blanks (text : List Char) : ∃ blanks : List Char,
    (∀ c ∈ blanks, Text.isBlank c = true) ∧ text = blanks ++ Text.trimStart text :=
  ⟨text.takeWhile Text.isBlank, fun _ hc => List.mem_takeWhile_imp hc,
    List.takeWhile_append_dropWhile.symm⟩

theorem trimStart_numeral {blanks : List Char} (hblank : ∀ c ∈ blanks, Text.isBlank c = true)
    {n : Numeral} (hn : n.Proper) (rest : List Char) :
    Text.trimStart (blanks ++ n.text ++ rest) = n.text ++ rest := by
  rw [List.append_assoc]
  refine (Text.takeWhile_run hblank fun c hc => ?_).2
  rw [List.head?_append_of_ne_nil _ hn.text_ne_nil] at hc
  exact isBlank_of_mem_text hn (List.mem_of_mem_head? hc)

/-- The longest number is taken after any blanks. -/
theorem scanEquals_of_stops {blanks rest : List Char}
    (hblank : ∀ c ∈ blanks, Text.isBlank c = true) {n : Numeral} (hn : n.Proper)
    (hrest : n.Stops rest) :
    scanEquals (blanks ++ n.text ++ rest) = some (.equals n.value.toFloat, rest) := by
  rw [scanEquals, trimStart_numeral hblank hn, Numeral.scan_of_stops hn hrest, Option.map_some]

theorem scanEquals_numeral {n : Numeral} (h : n.Proper) :
    scanEquals (' ' :: n.text) = some (.equals n.value.toFloat, []) := by
  have hblank : ∀ c ∈ [' '], Text.isBlank c = true := List.forall_mem_singleton.mpr rfl
  have hscan := scanEquals_of_stops hblank h n.stops_nil
  rw [List.append_nil] at hscan
  exact hscan

theorem scanEquals_text_eq_none {x : Float} (hx : ¬ Binary64.Plain x) :
    scanEquals (' ' :: (Binary64.ofFloat x).text) = none := by
  have htrim : Text.trimStart (' ' :: (Binary64.ofFloat x).text) = (Binary64.ofFloat x).text := by
    obtain ⟨c, rest, htext, hc⟩ := Binary64.exists_text_eq_cons hx
    rw [htext]
    obtain rfl | rfl | rfl := hc <;> rfl
  unfold scanEquals
  rw [htrim, Binary64.scan_text_eq_none hx, Option.map_none]

/-! ## 3. Tokens -/

/-- A token, the piece of a text that it is read from, and what follows the piece, with which the
token does not go on. -/
inductive Scanned : Token → List Char → List Char → Prop
  | blank {blanks rest : List Char} (hne : blanks ≠ [])
    (hblank : ∀ c ∈ blanks, Text.isBlank c = true)
    (hrest : ∀ c ∈ rest.head?, Text.isBlank c = false) : Scanned .blank blanks rest
  | openParen (rest : List Char) : Scanned .openParen ['('] rest
  | closeParen (rest : List Char) : Scanned .closeParen [')'] rest
  | and (rest : List Char) : Scanned .and ['a', 'n', 'd'] rest
  | or (rest : List Char) : Scanned .or ['o', 'r'] rest
  | equals {blanks rest : List Char} {n : Numeral} (hblank : ∀ c ∈ blanks, Text.isBlank c = true)
    (hn : n.Proper) (hrest : n.Stops rest) :
    Scanned (.equals n.value.toFloat) ('=' :: (blanks ++ n.text)) rest
  | event {label : String} {rest : List Char} (hlabel : IsLabel label) (hrest : Stops rest) :
    Scanned (.event label) label.toList rest

theorem Scanned.scan_eq {token : Token} {piece rest : List Char} (h : Scanned token piece rest) :
    scan (piece ++ rest) = some (token, rest) := by
  cases h with
  | @blank blanks _ hne hblank hrest =>
    obtain ⟨c, blanks, rfl⟩ := List.exists_cons_of_ne_nil hne
    obtain ⟨hc, hblank⟩ := List.forall_mem_cons.mp hblank
    rw [List.cons_append, scan_blank hc, Text.trimStart, (Text.takeWhile_run hblank hrest).2]
  | equals hblank hn hrest => exact scanEquals_of_stops hblank hn hrest
  | event hlabel hrest => exact scan_label hlabel hrest
  | _ => rfl

/-- Whatever token is at the front of a text, it is read from a piece there. -/
theorem scan_eq_some_iff {text rest : List Char} {token : Token} :
    scan text = some (token, rest) ↔ ∃ piece, Scanned token piece rest ∧ text = piece ++ rest := by
  constructor
  · intro h
    unfold scan at h
    split at h
    case h_1 => cases h
    case h_2 =>
      cases h
      exact ⟨_, .openParen _, rfl⟩
    case h_3 =>
      cases h
      exact ⟨_, .closeParen _, rfl⟩
    case h_4 =>
      cases h
      exact ⟨_, .and _, rfl⟩
    case h_5 =>
      cases h
      exact ⟨_, .or _, rfl⟩
    case h_6 after =>
      unfold scanEquals at h
      rw [Option.map_eq_some_iff] at h
      obtain ⟨⟨n, rest'⟩, hnumeral, h⟩ := h
      cases h
      obtain ⟨hn, htrim, hrest⟩ := Numeral.spec_of_scan hnumeral
      obtain ⟨blanks, hblank, hsplit⟩ := exists_blanks after
      refine ⟨_, .equals hblank hn hrest, ?_⟩
      rw [List.cons_append, List.append_assoc, ← htrim, ← hsplit]
    case h_7 c after hopen hclose hand hor hequals =>
      split at h
      next hc =>
        cases h
        obtain ⟨blanks, hblank, hsplit⟩ := exists_blanks after
        refine ⟨c :: blanks, .blank (List.cons_ne_nil _ _) (List.forall_mem_cons.mpr ⟨hc, hblank⟩)
          (Text.head_dropWhile _ after), ?_⟩
        rw [List.cons_append, ← hsplit]
      next hc =>
        cases h
        have hc : isLabelChar c = true := isLabelChar_iff.mpr ⟨by simpa using hc, hclose, hequals⟩
        refine ⟨_, .event (isLabel_takeWhile hc hopen hand hor)
          (Text.head_dropWhile isLabelChar after), ?_⟩
        rw [String.toList_ofList, List.cons_append, List.takeWhile_append_dropWhile]
  · rintro ⟨piece, hscanned, rfl⟩
    exact hscanned.scan_eq

/-- The lexer takes no other labels. -/
theorem isLabel_of_scan {text rest : List Char} {label : String}
    (h : scan text = some (.event label, rest)) : IsLabel label := by
  obtain ⟨piece, hscanned, -⟩ := scan_eq_some_iff.mp h
  cases hscanned with
  | event hlabel => exact hlabel

/-- The probabilities that are read are plain, or past all finite doubles. -/
theorem equals_of_scan {text rest : List Char} {p : Float}
    (h : scan text = some (.equals p, rest)) : Binary64.Plain p ∨ p = Binary64.infinity := by
  obtain ⟨piece, hscanned, -⟩ := scan_eq_some_iff.mp h
  cases hscanned with
  | equals => exact Binary64.nearest_cases _ _

end Token

end Credence
