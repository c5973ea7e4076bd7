import Mathlib
import Credence.Proofs.EventList.Cut

/-!
# Labels in a line

Labels in which there are neither commas nor spaces are read back from a line, whatever commas and
spaces stand between them and around them. Other blanks belong to the labels, but for those at the
two ends of the line.
-/

namespace Credence.EventList

/-! ## 1. Joining labels -/

/-- Only commas and spaces. -/
def Separating (text : String) : Prop := ∀ c ∈ text.toList, isSeparator c = true

/-- Labels one after the other, with separators of any kind and number between each and the next. -/
inductive Joined : List String → String → Prop
  | nil : Joined [] ""
  | single (label : String) : Joined [label] label
  | cons (label : String) {next : String} {labels : List String} {separator text : String}
    (hne : separator ≠ "") (hseparator : Separating separator) (h : Joined (next :: labels) text) :
    Joined (label :: next :: labels) (label ++ separator ++ text)

/-- Labels that a line can list: they are free of separators, and what the line is trimmed of stands
neither at the start of the first one nor at the end of the last one. -/
structure Listable (labels : List String) : Prop where
  ne_empty : ∀ label ∈ labels, label ≠ ""
  plain : ∀ label ∈ labels, ∀ c ∈ label.toList, isSeparator c = false
  first : ∀ label ∈ labels.head?, ∀ c ∈ label.toList.head?, Text.isBlank c = false
  last : ∀ label ∈ labels.getLast?, ∀ c ∈ label.toList.getLast?, Text.isBlank c = false

/-! ## 2. Trimming -/

section Joining

variable {text after : List Char} {label joined : String} {labels : List String}

theorem trimStart_append (h : ∀ c ∈ text.head?, Text.isBlank c = false) (before : List Char) :
    Text.trimStart (before ++ text) = Text.trimStart before ++ text := by
  rw [Text.trimStart, Text.trimStart, List.dropWhile_append]
  by_cases hempty : (before.dropWhile Text.isBlank).isEmpty = true
  · rw [if_pos hempty, List.isEmpty_iff.mp hempty, List.nil_append]
    cases text with
    | nil => rfl
    | cons c text => rw [List.dropWhile_cons_of_neg (by rw [h c rfl]; decide)]
  · rw [if_neg hempty]

/-- Trimming stops at a text that begins and ends with other characters than blanks. -/
theorem trim_append (hne : text ≠ []) (hfirst : ∀ c ∈ text.head?, Text.isBlank c = false)
    (hlast : ∀ c ∈ text.getLast?, Text.isBlank c = false) (before after : List Char) :
    Text.trim (before ++ text ++ after) =
      Text.trimStart before ++ text ++ (Text.trimStart after.reverse).reverse := by
  have hfirst' : ∀ c ∈ (text ++ after).head?, Text.isBlank c = false := by
    rwa [List.head?_append_of_ne_nil _ hne]
  have hlast' : ∀ c ∈ (text.reverse ++ (Text.trimStart before).reverse).head?,
      Text.isBlank c = false := by
    rwa [List.head?_append_of_ne_nil _ (by simpa using hne), List.head?_reverse]
  rw [Text.trim, List.append_assoc, trimStart_append hfirst', List.reverse_append,
    List.reverse_append, List.append_assoc, trimStart_append hlast', List.reverse_append,
    List.reverse_append, List.reverse_reverse, List.reverse_reverse]

theorem trimStart_subset (text : List Char) : Text.trimStart text ⊆ text :=
  (List.dropWhile_sublist _).subset

theorem trim_subset (text : List Char) : Text.trim text ⊆ text := by
  intro c hc
  have hreverse := trimStart_subset _ (List.mem_reverse.mp hc)
  exact trimStart_subset text (List.mem_reverse.mp hreverse)

/-! ## 3. Splitting -/

theorem Joined.ne_empty (h : Joined (label :: labels) joined) (hne : label ≠ "") :
    joined ≠ "" := by
  cases h with
  | single => exact hne
  | cons => simp [hne]

theorem Joined.head? (h : Joined (label :: labels) joined) (hne : label ≠ "") :
    joined.toList.head? = label.toList.head? := by
  have hlabel : label.toList ≠ [] := by simpa using hne
  cases h with
  | single => rfl
  | cons =>
    rw [String.toList_append, String.toList_append, List.append_assoc,
      List.head?_append_of_ne_nil _ hlabel]

theorem Joined.getLast? (h : Joined labels joined) (hne : ∀ label ∈ labels, label ≠ "")
    (hlabel : label ∈ labels.getLast?) : joined.toList.getLast? = label.toList.getLast? := by
  induction h with
  | nil => cases hlabel
  | single =>
    cases hlabel
    rfl
  | @cons label' next labels separator text _ _ h ih =>
    rw [List.forall_mem_cons] at hne
    have htext : text.toList ≠ [] := by simpa using h.ne_empty (hne.2 next List.mem_cons_self)
    rw [String.toList_append, List.getLast?_append_of_ne_nil _ htext]
    exact ih hne.2 hlabel

/-- Joined labels are cut where they have been joined. -/
theorem Joined.cut (h : Joined labels joined) (hne : ∀ label ∈ labels, label ≠ "")
    (hplain : ∀ label ∈ labels, ∀ c ∈ label.toList, isSeparator c = false)
    (hafter : ∀ c ∈ after, isSeparator c = true) :
    Cut (joined.toList ++ after) (labels.map String.toList) := by
  induction h with
  | nil => exact cut_separators hafter
  | single label =>
    have hlabel : label.toList ≠ [] := by simpa using hne
    have hhead : ∀ c ∈ after.head?, isSeparator c = true :=
      fun c hc => hafter c (List.mem_of_mem_head? hc)
    exact .piece hlabel (hplain label List.mem_cons_self) hhead (cut_separators hafter)
  | @cons label next labels separator text hsep hseparator _ ih =>
    rw [List.forall_mem_cons] at hne hplain
    have hlabel : label.toList ≠ [] := by simpa using hne.1
    have hseparator' : separator.toList ≠ [] := by simpa using hsep
    have hhead : ∀ c ∈ (separator.toList ++ (text.toList ++ after)).head?,
        isSeparator c = true := by
      rw [List.head?_append_of_ne_nil _ hseparator']
      exact fun c hc => hseparator c (List.mem_of_mem_head? hc)
    rw [String.toList_append, String.toList_append, List.append_assoc, List.append_assoc]
    exact .piece hlabel hplain.1 hhead ((ih hne.2 hplain.2).append_separators hseparator)

theorem split_eq_of_cut {line : String}
    (h : Cut (Text.trim line.toList) (labels.map String.toList)) : split line = labels := by
  rw [split, h.runs_eq, List.map_map]
  exact List.map_id'' (fun _ => String.ofList_toList) labels

theorem Joined.split_eq (h : Joined labels joined) (hlabels : Listable labels)
    {leading trailing : String} (hleading : Separating leading) (htrailing : Separating trailing) :
    split (leading ++ joined ++ trailing) = labels := by
  apply split_eq_of_cut
  rw [String.toList_append, String.toList_append]
  cases labels with
  | nil =>
    -- without labels all of the line may be trimmed, or some of its separators remain
    cases h
    apply cut_separators
    intro c hc
    have hmem := trim_subset _ hc
    rw [String.toList_empty, List.append_nil, List.mem_append] at hmem
    cases hmem with
    | inl hmem => exact hleading c hmem
    | inr hmem => exact htrailing c hmem
  | cons label labels =>
    have hne := hlabels.ne_empty label List.mem_cons_self
    have hjoined : joined.toList ≠ [] := by simpa using h.ne_empty hne
    have hfirst : ∀ c ∈ joined.toList.head?, Text.isBlank c = false := by
      rw [h.head? hne]
      exact hlabels.first label rfl
    have hlast : ∀ c ∈ joined.toList.getLast?, Text.isBlank c = false := by
      have hmem := List.getLast_mem_getLast? (List.cons_ne_nil label labels)
      rw [h.getLast? hlabels.ne_empty hmem]
      exact hlabels.last _ hmem
    rw [trim_append hjoined hfirst hlast, List.append_assoc]
    apply Cut.append_separators
    · exact fun c hc => hleading c (trimStart_subset _ hc)
    · apply h.cut hlabels.ne_empty hlabels.plain
      intro c hc
      exact htrailing c (List.mem_reverse.mp (trimStart_subset _ (List.mem_reverse.mp hc)))

end Joining

/-- Splitting gives back the labels that have been joined, whatever the separators are. Of any line
it gives the longest runs of other characters, from left to right, once the line is trimmed. -/
theorem split_joined {labels : List String} {joined leading trailing : String}
    (h : Joined labels joined) (hlabels : Listable labels) (hleading : Separating leading)
    (htrailing : Separating trailing) (line : String) :
    split (leading ++ joined ++ trailing) = labels ∧
    (∀ label ∈ split line, label ≠ "" ∧ ∀ c ∈ label.toList, isSeparator c = false) ∧
    ∃ places, Places (Text.trim line.toList) ((split line).map String.toList) places := by
  have hcut := cut_runs (Text.trim line.toList)
  have hpieces : (split line).map String.toList = runs (Text.trim line.toList) := by
    rw [split, List.map_map]
    exact List.map_id'' (fun _ => String.toList_ofList) _
  refine ⟨h.split_eq hlabels hleading htrailing, fun label hlabel => ?_, ?_⟩
  · have hmem : label.toList ∈ (split line).map String.toList := List.mem_map_of_mem hlabel
    rw [hpieces] at hmem
    obtain ⟨hne, hplain⟩ := hcut.spec_of_mem _ hmem
    exact ⟨by simpa using hne, hplain⟩
  · rw [hpieces]
    exact hcut.exists_places

/-- Tabs and no-break spaces are not lost inside the line. -/
theorem split_joined_tabs :
    split (" ," ++ ("A\t" ++ ", " ++ ("\u00a0B" ++ ",,  " ++ "C\tD")) ++ ", ") =
        ["A\t", "\u00a0B", "C\tD"] ∧
      ∃ places, Places (Text.trim " A\t,B ".toList) ((split " A\t,B ").map String.toList)
        places := by
  have hjoined : Joined ["A\t", "\u00a0B", "C\tD"]
      ("A\t" ++ ", " ++ ("\u00a0B" ++ ",,  " ++ "C\tD")) :=
    .cons _ (by decide) (List.all_eq_true.mp rfl)
      (.cons _ (by decide) (List.all_eq_true.mp rfl) (.single _))
  have hlabels : Listable ["A\t", "\u00a0B", "C\tD"] := by
    refine ⟨by decide, by simp [isSeparator], fun label hlabel c hc => ?_,
      fun label hlabel c hc => ?_⟩
    · cases hlabel
      cases hc
      rfl
    · cases hlabel
      cases hc
      rfl
  have hleading : Separating " ," := List.all_eq_true.mp rfl
  have htrailing : Separating ", " := List.all_eq_true.mp rfl
  have hsplit := split_joined hjoined hlabels hleading htrailing " A\t,B "
  exact ⟨hsplit.1, hsplit.2.2⟩

end Credence.EventList
