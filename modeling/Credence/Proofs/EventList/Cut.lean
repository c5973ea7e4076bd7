import Mathlib
import Credence.EventList

/-!
# The pieces of a text

A text is cut into the longest runs of characters other than separators. There is one way to do so,
and the positions from which and up to which the pieces stand are those of all such runs.
-/

namespace Credence.EventList

/-! ## 1. Cutting a text -/

/-- A text is made up of separators and of pieces in which there is none. No two pieces stand next
to each other. -/
inductive Cut : List Char → List (List Char) → Prop
  | nil : Cut [] []
  | separator {c : Char} {text : List Char} {pieces : List (List Char)}
    (hc : isSeparator c = true) (h : Cut text pieces) : Cut (c :: text) pieces
  | piece {piece rest : List Char} {pieces : List (List Char)} (hne : piece ≠ [])
    (hpiece : ∀ c ∈ piece, isSeparator c = false) (hrest : ∀ c ∈ rest.head?, isSeparator c = true)
    (h : Cut rest pieces) : Cut (piece ++ rest) (piece :: pieces)

section Cutting

variable {c : Char} {run rest text : List Char} {pieces : List (List Char)}

theorem runsFrom_cons_of_separator (hc : isSeparator c = true) (text : List Char) :
    runsFrom (c :: text) = ([], runs text) :=
  if_pos hc

theorem runsFrom_cons_of_not (hc : isSeparator c = false) (text : List Char) :
    runsFrom (c :: text) = (c :: (runsFrom text).1, (runsFrom text).2) :=
  if_neg (by rw [hc]; decide)

theorem Cut.prepend (h : Cut rest pieces) (hrun : ∀ c ∈ run, isSeparator c = false)
    (hrest : ∀ c ∈ rest.head?, isSeparator c = true) : Cut (run ++ rest) (consRun run pieces) := by
  cases run with
  | nil => exact h
  | cons c run => exact .piece (List.cons_ne_nil c run) hrun hrest h

theorem Cut.runs_of_rest (h : Cut rest (runsFrom text).2) (htext : text = (runsFrom text).1 ++ rest)
    (hrun : ∀ c ∈ (runsFrom text).1, isSeparator c = false)
    (hrest : ∀ c ∈ rest.head?, isSeparator c = true) : Cut text (runs text) := by
  have hcut := h.prepend hrun hrest
  rw [← htext] at hcut
  exact hcut

theorem cut_runsFrom (text : List Char) :
    ∃ rest, text = (runsFrom text).1 ++ rest ∧ (∀ c ∈ (runsFrom text).1, isSeparator c = false) ∧
      (∀ c ∈ rest.head?, isSeparator c = true) ∧ Cut rest (runsFrom text).2 := by
  induction text with
  | nil => exact ⟨[], rfl, List.forall_mem_nil _, by simp, .nil⟩
  | cons c text ih =>
    obtain ⟨rest, htext, hrun, hrest, hcut⟩ := ih
    cases hc : isSeparator c with
    | true =>
      -- the run after a separator is the first piece of the rest
      rw [runsFrom_cons_of_separator hc]
      exact ⟨c :: text, rfl, List.forall_mem_nil _, by simpa using hc,
        .separator hc (hcut.runs_of_rest htext hrun hrest)⟩
    | false =>
      rw [runsFrom_cons_of_not hc]
      refine ⟨rest, ?_, List.forall_mem_cons.mpr ⟨hc, hrun⟩, hrest, hcut⟩
      rw [List.cons_append, ← htext]

theorem cut_runs (text : List Char) : Cut text (runs text) := by
  obtain ⟨rest, htext, hrun, hrest, hcut⟩ := cut_runsFrom text
  exact hcut.runs_of_rest htext hrun hrest

theorem runsFrom_append (hrun : ∀ c ∈ run, isSeparator c = false)
    (hrest : ∀ c ∈ rest.head?, isSeparator c = true) :
    runsFrom (run ++ rest) = (run, runs rest) := by
  induction run with
  | nil =>
    cases rest with
    | nil => rfl
    | cons c rest =>
      have hc : isSeparator c = true := hrest c rfl
      -- the separator itself is in no run
      show runsFrom (c :: rest) = ([], runs (c :: rest))
      rw [runs, runsFrom_cons_of_separator hc]
      rfl
  | cons c run ih =>
    obtain ⟨hc, hrun⟩ := List.forall_mem_cons.mp hrun
    rw [List.cons_append, runsFrom_cons_of_not hc, ih hrun]

/-- There is only one way to cut a text. -/
theorem Cut.runs_eq (h : Cut text pieces) : runs text = pieces := by
  induction h with
  | nil => rfl
  | separator hc h ih =>
    rw [runs, runsFrom_cons_of_separator hc]
    exact ih
  | @piece piece rest pieces hne hpiece hrest h ih =>
    rw [runs, runsFrom_append hpiece hrest, ih]
    show consRun piece pieces = piece :: pieces
    rw [consRun, if_neg (by rwa [List.isEmpty_iff])]

theorem Cut.append_separators {before : List Char} (hbefore : ∀ c ∈ before, isSeparator c = true)
    (h : Cut text pieces) : Cut (before ++ text) pieces := by
  induction before with
  | nil => exact h
  | cons c before ih =>
    obtain ⟨hc, hbefore⟩ := List.forall_mem_cons.mp hbefore
    exact .separator hc (ih hbefore)

theorem cut_separators (h : ∀ c ∈ text, isSeparator c = true) : Cut text [] := by
  have hcut := Cut.nil.append_separators h
  rwa [List.append_nil] at hcut

theorem Cut.spec_of_mem (h : Cut text pieces) :
    ∀ piece ∈ pieces, piece ≠ [] ∧ ∀ c ∈ piece, isSeparator c = false := by
  induction h with
  | nil => exact List.forall_mem_nil _
  | separator _ _ ih => exact ih
  | piece hne hpiece _ _ ih => exact List.forall_mem_cons.mpr ⟨⟨hne, hpiece⟩, ih⟩

end Cutting

/-! ## 2. Where the pieces stand -/

/-- A character of a label stands at this position. -/
def LabelAt (text : List Char) (k : ℕ) : Prop := ∃ c, text[k]? = some c ∧ isSeparator c = false

/-- A run of characters other than separators, from position `i` up to position `j`, that goes on
neither to the left nor to the right. -/
structure IsRun (text : List Char) (i j : ℕ) : Prop where
  lt : i < j
  inside : ∀ k, i ≤ k → k < j → LabelAt text k
  start : ∀ k, k + 1 = i → ¬ LabelAt text k
  stop : ¬ LabelAt text j

/-- The places at which pieces stand in a text, from left to right, are those of all its runs. -/
structure Places (text : List Char) (pieces : List (List Char)) (places : List (ℕ × ℕ)) : Prop where
  pieces_eq : pieces = places.map fun place => text.extract place.1 place.2
  ascending : places.Pairwise fun place place' => place.2 < place'.1
  mem_iff : ∀ i j, (i, j) ∈ places ↔ IsRun text i j

section Positions

variable {before rest text : List Char} {pieces : List (List Char)} {places : List (ℕ × ℕ)}

theorem labelAt_append_right (before rest : List Char) (k : ℕ) :
    LabelAt (before ++ rest) (before.length + k) ↔ LabelAt rest k := by
  rw [LabelAt, LabelAt, List.getElem?_append_right (Nat.le_add_right _ _), Nat.add_sub_cancel_left]

theorem labelAt_append_left (rest : List Char) {k : ℕ} (hk : k < before.length) :
    LabelAt (before ++ rest) k ↔ LabelAt before k := by
  rw [LabelAt, LabelAt, List.getElem?_append_left hk]

theorem not_labelAt_zero (h : ∀ c ∈ text.head?, isSeparator c = true) : ¬ LabelAt text 0 := by
  rintro ⟨c, hc, hlabel⟩
  rw [h c (by rw [List.head?_eq_getElem?, hc, Option.mem_def])] at hlabel
  cases hlabel

theorem labelAt_of_lt (h : ∀ c ∈ text, isSeparator c = false) {k : ℕ} (hk : k < text.length) :
    LabelAt text k :=
  ⟨text[k], List.getElem?_eq_getElem hk, h _ (List.getElem_mem hk)⟩

/-- Where no run goes across the seam, those behind it are the runs of the rest. -/
theorem isRun_append
    (hseam : LabelAt rest 0 → ∀ k, k + 1 = before.length → ¬ LabelAt before k) (i j : ℕ) :
    IsRun (before ++ rest) (before.length + i) (before.length + j) ↔ IsRun rest i j := by
  constructor
  · intro h
    refine ⟨Nat.lt_of_add_lt_add_left h.lt, fun k hi hj => ?_, fun k hk => ?_, ?_⟩
    · rw [← labelAt_append_right before]
      exact h.inside _ (Nat.add_le_add_left hi _) (Nat.add_lt_add_left hj _)
    · rw [← labelAt_append_right before]
      exact h.start _ (by omega)
    · rw [← labelAt_append_right before]
      exact h.stop
  · intro h
    refine ⟨Nat.add_lt_add_left h.lt _, fun k hi hj => ?_, fun k hk => ?_, ?_⟩
    · obtain ⟨k, rfl⟩ := Nat.exists_eq_add_of_le (show before.length ≤ k by omega)
      rw [labelAt_append_right]
      exact h.inside k (by omega) (by omega)
    · by_cases hlt : k < before.length
      -- only a run that begins with the rest has its left neighbour before the seam
      · have hi : i = 0 := by omega
        rw [labelAt_append_left rest hlt]
        exact hseam (h.inside 0 (by omega) (by have := h.lt; omega)) k (by omega)
      · obtain ⟨k, rfl⟩ := Nat.exists_eq_add_of_le (Nat.le_of_not_lt hlt)
        rw [labelAt_append_right]
        exact h.start k (by omega)
    · rw [labelAt_append_right]
      exact h.stop

/-- The places of the rest, moved on behind what stands in front of it. -/
def shift (n : ℕ) (place : ℕ × ℕ) : ℕ × ℕ := (n + place.1, n + place.2)

theorem Places.mem_map_shift (h : Places rest pieces places)
    (hseam : LabelAt rest 0 → ∀ k, k + 1 = before.length → ¬ LabelAt before k) (i j : ℕ) :
    (i, j) ∈ places.map (shift before.length) ↔
      before.length ≤ i ∧ IsRun (before ++ rest) i j := by
  rw [List.mem_map]
  constructor
  · rintro ⟨⟨i', j'⟩, hmem, heq⟩
    cases heq
    exact ⟨Nat.le_add_right _ _, (isRun_append hseam i' j').mpr ((h.mem_iff i' j').mp hmem)⟩
  · rintro ⟨hle, hrun⟩
    obtain ⟨i', rfl⟩ := Nat.exists_eq_add_of_le hle
    obtain ⟨j', rfl⟩ := Nat.exists_eq_add_of_le (hle.trans hrun.lt.le)
    exact ⟨(i', j'), (h.mem_iff i' j').mpr ((isRun_append hseam i' j').mp hrun), rfl⟩

theorem Places.map_extract_shift (h : Places rest pieces places) (before : List Char) :
    (places.map (shift before.length)).map
      (fun place => (before ++ rest).extract place.1 place.2) = pieces := by
  rw [List.map_map, h.pieces_eq]
  apply List.map_congr_left
  intro place _
  show (before ++ rest).extract (before.length + place.1) (before.length + place.2) = _
  rw [List.extract_eq_take_drop, List.extract_eq_take_drop, List.drop_length_add_append,
    Nat.add_sub_add_left]

theorem Places.pairwise_map_shift (h : Places rest pieces places) (n : ℕ) :
    (places.map (shift n)).Pairwise fun place place' => place.2 < place'.1 :=
  List.pairwise_map.mpr (h.ascending.imp fun hlt => Nat.add_lt_add_left hlt n)

theorem Places.separator {c : Char} (hc : isSeparator c = true) (h : Places text pieces places) :
    Places (c :: text) pieces (places.map (shift 1)) where
  pieces_eq := (h.map_extract_shift [c]).symm
  ascending := h.pairwise_map_shift 1
  mem_iff := by
    intro i j
    have hzero : ¬ LabelAt [c] 0 := not_labelAt_zero (by simpa using hc)
    have hseam : LabelAt text 0 → ∀ k, k + 1 = [c].length → ¬ LabelAt [c] k := by
      intro _ k hk
      rwa [show k = 0 by simpa using hk]
    have hmem := h.mem_map_shift hseam i j
    rw [List.length_singleton] at hmem
    rw [hmem, List.singleton_append]
    refine ⟨fun hrun => hrun.2, fun hrun => ⟨?_, hrun⟩⟩
    -- no run begins with the separator
    by_contra hlt
    have hfirst := hrun.inside 0 (by omega) (by have := hrun.lt; omega)
    exact hzero ((labelAt_append_left text Nat.zero_lt_one).mp hfirst)

theorem Places.piece {piece : List Char} (hne : piece ≠ [])
    (hpiece : ∀ c ∈ piece, isSeparator c = false) (hrest : ∀ c ∈ rest.head?, isSeparator c = true)
    (h : Places rest pieces places) :
    Places (piece ++ rest) (piece :: pieces)
      ((0, piece.length) :: places.map (shift piece.length)) where
  pieces_eq := by
    rw [List.map_cons, h.map_extract_shift, List.extract_eq_take_drop, List.drop_zero,
      Nat.sub_zero, List.take_left]
  ascending := by
    rw [List.pairwise_cons]
    refine ⟨fun place hplace => ?_, h.pairwise_map_shift _⟩
    -- the next run does not begin right behind the piece, where there is a separator
    obtain ⟨⟨i, j⟩, hmem, rfl⟩ := List.mem_map.mp hplace
    have hrun := (h.mem_iff i j).mp hmem
    have hpos : i ≠ 0 := by
      rintro rfl
      exact not_labelAt_zero hrest (hrun.inside 0 (Nat.le_refl 0) hrun.lt)
    show piece.length < piece.length + i
    omega
  mem_iff := by
    intro i j
    have hpos : 0 < piece.length := List.length_pos_iff.mpr hne
    have hseam : LabelAt rest 0 → ∀ k, k + 1 = piece.length → ¬ LabelAt piece k :=
      fun hlabel => absurd hlabel (not_labelAt_zero hrest)
    have hinside {k : ℕ} (hk : k < piece.length) : LabelAt (piece ++ rest) k :=
      (labelAt_append_left rest hk).mpr (labelAt_of_lt hpiece hk)
    have hstop : ¬ LabelAt (piece ++ rest) piece.length := by
      have := labelAt_append_right piece rest 0
      rw [Nat.add_zero] at this
      rw [this]
      exact not_labelAt_zero hrest
    rw [List.mem_cons, h.mem_map_shift hseam]
    constructor
    · rintro (heq | ⟨-, hrun⟩)
      · cases heq
        exact ⟨hpos, fun k _ hk => hinside hk, fun k hk => by omega, hstop⟩
      · exact hrun
    · intro hrun
      by_cases hle : piece.length ≤ i
      · exact .inr ⟨hle, hrun⟩
      -- a run that begins in the piece takes all of it
      · left
        have hi : i = 0 := by
          by_contra hne
          exact hrun.start (i - 1) (by omega) (hinside (by omega))
        have hj : j = piece.length := by
          rcases Nat.lt_trichotomy j piece.length with hlt | heq | hgt
          · exact absurd (hinside hlt) hrun.stop
          · exact heq
          · exact absurd (hrun.inside _ (by omega) hgt) hstop
        rw [hi, hj]

theorem Cut.exists_places (h : Cut text pieces) : ∃ places, Places text pieces places := by
  induction h with
  | nil =>
    refine ⟨[], rfl, .nil, fun i j => ⟨fun hmem => absurd hmem List.not_mem_nil, fun hrun => ?_⟩⟩
    exact absurd (hrun.inside i (Nat.le_refl i) hrun.lt) (by simp [LabelAt])
  | separator hc _ ih =>
    obtain ⟨places, hplaces⟩ := ih
    exact ⟨_, hplaces.separator hc⟩
  | piece hne hpiece hrest _ ih =>
    obtain ⟨places, hplaces⟩ := ih
    exact ⟨_, hplaces.piece hne hpiece hrest⟩

end Positions

end Credence.EventList
