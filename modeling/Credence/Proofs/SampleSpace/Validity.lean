import Mathlib
import Credence.Proofs.SampleSpace

/-!
# Valid event lists

An event list spans a sample space exactly if it is usable, and otherwise the first thing wrong with
it is the error: its length, and then the first label that cannot stand where it does. In the space
the position of a label, the bit of a cell's index and the bit of an indicator are one and the same.
-/

namespace Credence.SampleSpace

variable {earlier labels : List String} {label : String} {error : EventListError}

/-! ## 1. Labels -/

/-- Why a label cannot come after others: it is empty, or it is one of them. -/
inductive LabelRefused (earlier : List String) : String → EventListError → Prop
  | empty : LabelRefused earlier "" .emptyLabel
  | duplicate {label : String} (hne : label ≠ "") (hmem : label ∈ earlier) :
    LabelRefused earlier label (.duplicateEvent label)

theorem checkLabels_of_refused (h : LabelRefused earlier label error) (labels : List String) :
    checkLabels earlier (label :: labels) = .error error := by
  rw [checkLabels]
  cases h with
  | empty => rfl
  | duplicate hne hmem => rw [if_neg (by rwa [String.isEmpty_iff]), if_pos hmem]

/-- A label is refused, or it is one of the earlier labels for those that follow. -/
theorem checkLabels_cons_cases (earlier : List String) (label : String) :
    (∃ error, LabelRefused earlier label error) ∨
    ∀ labels, checkLabels earlier (label :: labels) = checkLabels (label :: earlier) labels := by
  by_cases hempty : label = ""
  · subst hempty
    exact .inl ⟨_, .empty⟩
  · by_cases hmem : label ∈ earlier
    · exact .inl ⟨_, .duplicate hempty hmem⟩
    · right
      intro labels
      rw [checkLabels, if_neg (by rwa [String.isEmpty_iff]), if_neg hmem]

theorem checkLabels_append {before : List String} (h : checkLabels earlier before = .ok ())
    (labels : List String) :
    checkLabels earlier (before ++ labels) = checkLabels (before.reverse ++ earlier) labels := by
  induction before generalizing earlier with
  | nil => rfl
  | cons label before ih =>
    cases checkLabels_cons_cases earlier label with
    | inl hrefused =>
      obtain ⟨error, hrefused⟩ := hrefused
      rw [checkLabels_of_refused hrefused] at h
      cases h
    | inr hcons =>
      rw [hcons] at h
      rw [List.cons_append, hcons, ih h, List.reverse_cons, List.append_assoc,
        List.singleton_append]

theorem exists_refused (h : checkLabels earlier labels = .error error) :
    ∃ before label after, labels = before ++ label :: after ∧ checkLabels earlier before = .ok () ∧
      LabelRefused (before.reverse ++ earlier) label error := by
  induction labels generalizing earlier with
  | nil => cases h
  | cons label labels ih =>
    cases checkLabels_cons_cases earlier label with
    | inl hrefused =>
      obtain ⟨error', hrefused⟩ := hrefused
      rw [checkLabels_of_refused hrefused] at h
      cases h
      exact ⟨[], label, labels, rfl, rfl, hrefused⟩
    | inr hcons =>
      rw [hcons] at h
      obtain ⟨before, label', after, rfl, hbefore, hrefused⟩ := ih h
      refine ⟨label :: before, label', after, rfl, (hcons before).trans hbefore, ?_⟩
      rw [List.reverse_cons, List.append_assoc, List.singleton_append]
      exact hrefused

/-! ## 2. Event lists -/

/-- The first thing wrong with an event list. Its labels are looked at only when their number is
right, and all labels before the one that is refused are in order. -/
inductive Refused (events : List String) : EventListError → Prop
  | noEvents (hevents : events = []) : Refused events .noEvents
  | tooManyEvents (hlength : Cell.maxEvents < events.length) :
    Refused events (.tooManyEvents events.length)
  | label {before after : List String} {label : String} {error : EventListError}
    (hlength : events.length ≤ Cell.maxEvents) (hevents : events = before ++ label :: after)
    (hempty : "" ∉ before) (hnodup : before.Nodup) (hlabel : LabelRefused before label error) :
    Refused events error

theorem LabelRefused.congr {earlier' : List String} (h : LabelRefused earlier label error)
    (hmem : ∀ label, label ∈ earlier ↔ label ∈ earlier') : LabelRefused earlier' label error := by
  cases h with
  | empty => exact .empty
  | duplicate hne hlabel => exact .duplicate hne ((hmem label).mp hlabel)

theorem checkLabels_nil_eq_ok_iff :
    checkLabels [] labels = .ok () ↔ "" ∉ labels ∧ labels.Nodup := by
  rw [checkLabels_eq_ok_iff]
  simp

theorem checkEvents_eq_error_iff {events : List String} :
    checkEvents events = .error error ↔ Refused events error := by
  rw [checkEvents]
  constructor
  · intro h
    split at h
    next hempty =>
      cases h
      exact .noEvents (List.isEmpty_iff.mp hempty)
    next =>
      split at h
      next hlength =>
        cases h
        exact .tooManyEvents hlength
      next hlength =>
        obtain ⟨before, label, after, hevents, hbefore, hrefused⟩ := exists_refused h
        obtain ⟨hempty, hnodup⟩ := checkLabels_nil_eq_ok_iff.mp hbefore
        exact .label (Nat.not_lt.mp hlength) hevents hempty hnodup (hrefused.congr (by simp))
  · intro h
    cases h with
    | noEvents hevents => rw [hevents]; rfl
    | tooManyEvents hlength =>
      have hne : events.isEmpty = false := by
        rw [List.isEmpty_eq_false_iff]
        rintro rfl
        cases hlength
      rw [hne, if_neg (by decide), if_pos hlength]
    | @label before after label _ hlength hevents hempty hnodup hlabel =>
      have hne : events.isEmpty = false := by simp [hevents]
      have hbefore := checkLabels_nil_eq_ok_iff.mpr ⟨hempty, hnodup⟩
      rw [hne, if_neg (by decide), if_neg (Nat.not_lt.mpr hlength), hevents,
        checkLabels_append hbefore]
      exact checkLabels_of_refused (hlabel.congr (by simp)) after

/-! ## 3. Spaces -/

/-- Cell `i` stands at index `i`, and the indicator of the label at position `k` selects the cells
whose indices have bit `k`. There are no other indicators. -/
structure Aligned (events : List String) (space : SampleSpace) : Prop where
  events_eq : space.events = events
  numCells_eq : space.numCells = 2 ^ events.length
  cell_eq : ∀ i < 2 ^ events.length, ∃ cell, space.cells[i]? = some cell ∧ cell.index = i
  indicator_eq : ∀ (k : ℕ) (hk : k < events.length), ∃ indicator,
    space.indicator events[k] = .ok indicator ∧ indicator.length = 2 ^ events.length ∧
      ∀ i < 2 ^ events.length, indicator.contains i = i.testBit k
  indicator_of_undeclared : ∀ label, label ∉ events →
    space.indicator label = .error (.refused ⟨label⟩)

theorem Spans.aligned {events : List String} {space : SampleSpace} (h : Spans events space) :
    Aligned events space where
  events_eq := h.events_eq
  numCells_eq := h.numCells_eq
  cell_eq i hi :=
    ⟨Cell.ofIndex i, Cell.getElem?_of_enumerate h.enumerate hi,
      Cell.index_ofIndex_of_enumerate h.enumerate hi⟩
  indicator_eq k hk := by
    obtain ⟨indicator, hindicator, -, hlength, hcontains⟩ := h.indicator_spec (List.getElem_mem hk)
    rw [h.usable.nodup.idxOf_getElem k hk] at hcontains
    exact ⟨indicator, hindicator, hlength, hcontains⟩
  indicator_of_undeclared _ hlabel := h.indicator_of_notMem hlabel

theorem span_eq_refused_iff {events : List String} {error : EventListError} :
    span events = .error (.refused error) ↔ Refused events error := by
  rw [← checkEvents_eq_error_iff]
  constructor
  · intro h
    obtain ⟨error', hcheck, hspan⟩ | ⟨-, -, hspan⟩ | ⟨space, hspans⟩ := span_cases events
    · rw [hspan] at h
      cases h
      exact hcheck
    · rw [hspan] at h
      cases h
    · rw [span_eq_ok_iff.mpr hspans] at h
      cases h
  · exact span_eq_refused

theorem span_eq_fault_iff {events : List String} {fault : Fault} :
    span events = .error (.fault fault) ↔
      fault = .capacityOverflow ∧ Usable events ∧ Cell.maxListed < events.length := by
  constructor
  · intro h
    obtain ⟨error, -, hspan⟩ | ⟨husable, hlength, hspan⟩ | ⟨space, hspans⟩ := span_cases events
    · rw [hspan] at h
      cases h
    · rw [hspan] at h
      cases h
      exact ⟨rfl, husable, hlength⟩
    · rw [span_eq_ok_iff.mpr hspans] at h
      cases h
  · rintro ⟨rfl, husable, hlength⟩
    exact span_eq_capacityOverflow husable hlength

/-- A usable event list spans a space, in which labels, cells and indicators are aligned, if there is
room for the cells; there is none from 60 labels on. Any other list is refused for the first thing
that is wrong with it. -/
theorem span_outcome (events : List String) :
    ((∃ space, span events = .ok space) ↔
      Usable events ∧ events.length ≤ Cell.maxListed) ∧
    (∀ error, span events = .error (.refused error) ↔ Refused events error) ∧
    (∀ fault, span events = .error (.fault fault) ↔
      fault = .capacityOverflow ∧ Usable events ∧ Cell.maxListed < events.length) ∧
    ∀ space, span events = .ok space → Aligned events space := by
  refine ⟨⟨?_, ?_⟩, fun error => span_eq_refused_iff, fun fault => span_eq_fault_iff, ?_⟩
  · rintro ⟨space, hspan⟩
    have h := span_eq_ok_iff.mp hspan
    exact ⟨h.usable, h.length_le⟩
  · rintro ⟨husable, hroom⟩
    obtain ⟨space, h⟩ := exists_spans husable hroom
    exact ⟨space, span_eq_ok_iff.mpr h⟩
  · intro space hspan
    exact (span_eq_ok_iff.mp hspan).aligned

/-- Nothing is wrong with sixty labels, and they span no space. -/
theorem span_sixtyLabels :
    sixtyLabels.length = 60 ∧ Usable sixtyLabels ∧
      span sixtyLabels = .error (.fault .capacityOverflow) :=
  ⟨rfl, usable_sixtyLabels, span_eq_capacityOverflow usable_sixtyLabels (by decide)⟩

/-- The first label that is wrong counts, not the first kind of mistake. -/
example : span ["A", "B", "B", ""] = .error (.refused (.duplicateEvent "B")) := rfl

end Credence.SampleSpace
