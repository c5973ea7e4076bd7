import Mathlib
import Credence.Decimal.Numeral

/-!
# Numerals in a text

Digits are taken as far as they go, and a point where a digit comes after it. So the numeral that is
scanned is the longest one at the front of a text, and it is found whenever there is any.
-/

namespace Credence

/-- A run of characters of one kind is taken up to where the kind changes. -/
theorem Text.takeWhile_run {p : Char → Bool} {run rest : List Char} (hrun : ∀ c ∈ run, p c = true)
    (hrest : ∀ c ∈ rest.head?, p c = false) :
    (run ++ rest).takeWhile p = run ∧ (run ++ rest).dropWhile p = rest := by
  rw [List.takeWhile_append_of_pos hrun, List.dropWhile_append_of_pos hrun]
  cases rest with
  | nil => simp
  | cons c rest =>
    have hc : p c = false := hrest c rfl
    simp [hc]

theorem Text.head_dropWhile (p : Char → Bool) (text : List Char) :
    ∀ c ∈ (text.dropWhile p).head?, p c = false := by
  intro c hc
  have hhead := List.head?_dropWhile_not p text
  rw [Option.mem_def] at hc
  rw [hc] at hhead
  exact hhead

namespace Numeral

/-! ## 1. Numerals and what stops them -/

/-- All characters are digits, and there is at least one after the point, or in front of it if
there is no point. -/
structure Proper (n : Numeral) : Prop where
  whole : ∀ c ∈ n.whole, c.isDigit = true
  fraction : ∀ c ∈ n.fraction, c.isDigit = true
  nonempty : n.fraction = [] → n.whole ≠ []

/-- The numeral does not go on into the text: it begins with no digit, nor with a point and a digit
if the numeral has no point yet. -/
structure Stops (n : Numeral) (rest : List Char) : Prop where
  digit : ∀ c ∈ rest.head?, c.isDigit = false
  point : n.fraction = [] → ∀ after, rest = '.' :: after → ∀ c ∈ after.head?, c.isDigit = false

theorem stops_nil (n : Numeral) : n.Stops [] where
  digit := by simp
  point := by simp

theorem Stops.append {n : Numeral} {text rest : List Char} (h : n.Stops text)
    (hrest : ∀ c ∈ rest.head?, c.isDigit = false ∧ c ≠ '.') : n.Stops (text ++ rest) where
  digit := by
    intro c hc
    cases text with
    | nil => exact (hrest c hc).1
    | cons d text => exact h.digit c hc
  point := by
    intro hfraction after heq c hc
    cases text with
    | nil =>
      rw [List.nil_append] at heq
      exact absurd rfl (hrest '.' (heq ▸ rfl)).2
    | cons d text =>
      obtain ⟨rfl, rfl⟩ := List.cons_eq_cons.mp heq
      -- a digit after the point is part of the text, or the first of what follows
      cases text with
      | nil => exact (hrest c hc).1
      | cons e text => exact h.point hfraction (e :: text) rfl c hc

theorem text_of_nil (whole : List Char) : text ⟨whole, []⟩ = whole := rfl

theorem text_of_ne_nil {n : Numeral} (h : n.fraction ≠ []) :
    n.text = n.whole ++ '.' :: n.fraction := by
  cases n with
  | mk whole fraction =>
    cases fraction with
    | nil => exact absurd rfl h
    | cons c fraction => rfl

theorem Proper.text_ne_nil {n : Numeral} (h : n.Proper) : n.text ≠ [] := by
  by_cases hfraction : n.fraction = []
  · unfold text
    rw [hfraction]
    exact h.nonempty hfraction
  · rw [text_of_ne_nil hfraction]
    exact List.append_ne_nil_of_right_ne_nil _ (List.cons_ne_nil _ _)

/-! ## 2. Scanning -/

/-- A point counts if a digit follows it. -/
theorem scan_cases (text : List Char) :
    (∃ after, text.dropWhile Char.isDigit = '.' :: after ∧ after.takeWhile Char.isDigit ≠ [] ∧
      scan text = some (⟨text.takeWhile Char.isDigit, after.takeWhile Char.isDigit⟩,
        after.dropWhile Char.isDigit)) ∨
    (∀ after, text.dropWhile Char.isDigit = '.' :: after → after.takeWhile Char.isDigit = []) ∧
      scan text = ofWhole (text.takeWhile Char.isDigit) (text.dropWhile Char.isDigit) := by
  simp only [scan]
  split
  next after hdrop =>
    rw [hdrop]
    split
    next hfraction =>
      refine .inr ⟨fun after' heq => ?_, rfl⟩
      cases heq
      exact List.isEmpty_iff.mp hfraction
    next hfraction => exact .inl ⟨after, rfl, fun hnil => hfraction (List.isEmpty_iff.mpr hnil), rfl⟩
  next hpoint => exact .inr ⟨fun after hdrop => absurd hdrop (hpoint after), rfl⟩

theorem head_of_takeWhile_eq_nil {text : List Char} (h : text.takeWhile Char.isDigit = []) :
    ∀ c ∈ text.head?, c.isDigit = false := by
  intro c hc
  cases text with
  | nil => cases hc
  | cons d rest =>
    cases hc
    by_contra hdigit
    rw [List.takeWhile_cons_of_pos (Bool.eq_true_of_not_eq_false hdigit)] at h
    cases h

/-- Digits without a point are taken up to where they stop. -/
theorem scan_whole {whole rest : List Char} (hwhole : ∀ c ∈ whole, c.isDigit = true)
    (hrest : Stops ⟨whole, []⟩ rest) : scan (whole ++ rest) = ofWhole whole rest := by
  obtain ⟨htake, hdrop⟩ := Text.takeWhile_run hwhole hrest.digit
  obtain ⟨after, hpoint, hne, -⟩ | ⟨-, hscan⟩ := scan_cases (whole ++ rest)
  · -- a digit after a point would not stop them
    rw [hdrop] at hpoint
    have hstop := hrest.point rfl after hpoint
    have hnil := (Text.takeWhile_run (List.forall_mem_nil _) hstop).1
    rw [List.nil_append] at hnil
    exact absurd hnil hne
  · rw [hscan, htake, hdrop]

/-- Digits around a point are taken as far as they go. -/
theorem scan_point {whole after : List Char} (hwhole : ∀ c ∈ whole, c.isDigit = true)
    (hafter : after.takeWhile Char.isDigit ≠ []) :
    scan (whole ++ '.' :: after) =
      some (⟨whole, after.takeWhile Char.isDigit⟩, after.dropWhile Char.isDigit) := by
  have hstop : ∀ c ∈ ('.' :: after).head?, c.isDigit = false := by
    intro c hc
    cases hc
    rfl
  obtain ⟨htake, hdrop⟩ := Text.takeWhile_run hwhole hstop
  obtain ⟨after', hpoint, -, hscan⟩ | ⟨hnil, -⟩ := scan_cases (whole ++ '.' :: after)
  · rw [hdrop] at hpoint
    cases hpoint
    rw [hscan, htake]
  · exact absurd (hnil after hdrop) hafter

theorem ofWhole_eq_some {whole text rest : List Char} {n : Numeral}
    (h : ofWhole whole text = some (n, rest)) : whole ≠ [] ∧ n = ⟨whole, []⟩ ∧ rest = text := by
  unfold ofWhole at h
  split at h
  next => cases h
  next hne =>
    cases h
    exact ⟨fun hnil => hne (List.isEmpty_iff.mpr hnil), rfl, rfl⟩

theorem ofWhole_of_ne_nil {whole : List Char} (h : whole ≠ []) (rest : List Char) :
    ofWhole whole rest = some (⟨whole, []⟩, rest) := by
  rw [ofWhole, if_neg (by simpa using h)]

theorem isDigit_of_mem_takeWhile {text : List Char} :
    ∀ c ∈ text.takeWhile Char.isDigit, c.isDigit = true :=
  fun _ hc => List.mem_takeWhile_imp hc

/-- What is scanned stands at the front of the text, and does not go on. -/
theorem spec_of_scan {text rest : List Char} {n : Numeral} (h : scan text = some (n, rest)) :
    n.Proper ∧ text = n.text ++ rest ∧ n.Stops rest := by
  have hwhole : ∀ c ∈ text.takeWhile Char.isDigit, c.isDigit = true := isDigit_of_mem_takeWhile
  have hsplit := List.takeWhile_append_dropWhile (p := Char.isDigit) (l := text)
  obtain ⟨after, hdrop, hne, hscan⟩ | ⟨hnil, hscan⟩ := scan_cases text
  · cases hscan.symm.trans h
    refine ⟨⟨hwhole, isDigit_of_mem_takeWhile, fun hnil => absurd hnil hne⟩, ?_,
      ⟨Text.head_dropWhile _ after, fun hnil => absurd hnil hne⟩⟩
    rw [text_of_ne_nil hne, List.append_assoc, List.cons_append, List.takeWhile_append_dropWhile,
      ← hdrop, hsplit]
  · obtain ⟨hne, rfl, rfl⟩ := ofWhole_eq_some (hscan.symm.trans h)
    refine ⟨⟨hwhole, List.forall_mem_nil _, fun _ => hne⟩, hsplit.symm, ⟨Text.head_dropWhile _ text, ?_⟩⟩
    intro _ after hdrop
    exact head_of_takeWhile_eq_nil (hnil after hdrop)

theorem scan_of_stops {n : Numeral} (hn : n.Proper) {rest : List Char} (hrest : n.Stops rest) :
    scan (n.text ++ rest) = some (n, rest) := by
  obtain ⟨whole, fraction⟩ := n
  by_cases hfraction : fraction = []
  · subst hfraction
    rw [text_of_nil, scan_whole hn.whole hrest, ofWhole_of_ne_nil (hn.nonempty rfl)]
  · obtain ⟨htake, hdrop⟩ := Text.takeWhile_run hn.fraction hrest.digit
    rw [text_of_ne_nil hfraction, List.append_assoc, List.cons_append]
    rw [scan_point hn.whole (by rwa [htake]), htake, hdrop]

/-! ## 3. The longest numeral -/

theorem whole_prefix_text (n : Numeral) : n.whole <+: n.text := by
  by_cases hfraction : n.fraction = []
  · obtain ⟨whole, fraction⟩ := n
    subst hfraction
    exact List.prefix_refl _
  · rw [text_of_ne_nil hfraction]
    exact List.prefix_append _ _

/-- What is scanned begins with any numeral that the text begins with. -/
theorem exists_scan {n : Numeral} (hn : n.Proper) (rest : List Char) :
    ∃ m left, scan (n.text ++ rest) = some (m, left) ∧ n.text <+: m.text := by
  obtain ⟨whole, fraction⟩ := n
  by_cases hfraction : fraction = []
  · subst hfraction
    -- digits may go on, and a point may come after them
    have htake : (whole ++ rest).takeWhile Char.isDigit = whole ++ rest.takeWhile Char.isDigit :=
      List.takeWhile_append_of_pos hn.whole
    have hne : (whole ++ rest).takeWhile Char.isDigit ≠ [] := by
      rw [htake]
      exact List.append_ne_nil_of_left_ne_nil (hn.nonempty rfl) _
    have hfront : ∀ fraction, whole <+: text ⟨(whole ++ rest).takeWhile Char.isDigit, fraction⟩ := by
      intro fraction
      refine List.IsPrefix.trans ?_ (whole_prefix_text _)
      rw [htake]
      exact List.prefix_append _ _
    rw [text_of_nil]
    obtain ⟨after, -, -, hscan⟩ | ⟨-, hscan⟩ := scan_cases (whole ++ rest)
    · exact ⟨_, _, hscan, hfront _⟩
    · exact ⟨_, _, hscan.trans (ofWhole_of_ne_nil hne _), hfront []⟩
  · have htake : (fraction ++ rest).takeWhile Char.isDigit =
        fraction ++ rest.takeWhile Char.isDigit := List.takeWhile_append_of_pos hn.fraction
    have hne : (fraction ++ rest).takeWhile Char.isDigit ≠ [] := by
      rw [htake]
      exact List.append_ne_nil_of_left_ne_nil hfraction _
    rw [text_of_ne_nil hfraction, List.append_assoc, List.cons_append]
    refine ⟨_, _, scan_point hn.whole hne, ?_⟩
    rw [text_of_ne_nil hne, htake, ← List.cons_append, ← List.append_assoc]
    exact List.prefix_append _ _

/-- No longer numeral stands at the front of the text. -/
theorem text_prefix_of_scan {text rest rest' : List Char} {n n' : Numeral}
    (h : scan text = some (n, rest)) (hn' : n'.Proper) (htext : text = n'.text ++ rest') :
    n'.text <+: n.text := by
  obtain ⟨m, left, hscan, hfront⟩ := exists_scan hn' rest'
  rw [htext, hscan] at h
  cases h
  exact hfront

/-- Nothing is scanned exactly where no numeral stands at the front of the text. -/
theorem scan_eq_none_iff {text : List Char} :
    scan text = none ↔ ¬ ∃ (n : Numeral) (rest : List Char), n.Proper ∧ text = n.text ++ rest := by
  constructor
  · rintro hnone ⟨n, rest, hn, rfl⟩
    obtain ⟨m, left, hscan, -⟩ := exists_scan hn rest
    rw [hnone] at hscan
    cases hscan
  · intro hnot
    cases hscan : scan text with
    | none => rfl
    | some result =>
      obtain ⟨hn, htext, -⟩ := spec_of_scan hscan
      exact absurd ⟨result.1, result.2, hn, htext⟩ hnot

theorem scan_eq_none {c : Char} {rest : List Char} (hdigit : c.isDigit = false) (hpoint : c ≠ '.') :
    scan (c :: rest) = none := by
  unfold scan
  simp [hdigit, hpoint, ofWhole]

end Numeral
end Credence
