import Mathlib
import Credence.Proofs.Bits.WellFormed
import Credence.Proofs.Cell.EventSet
import Credence.SampleSpace

/-!
# Spanning a sample space

The event lists that span a space, and what is in it: the cells in order, and for each label the
cells at whose index its bit is set. A usable list spans one unless there is no room for the cells.
-/

namespace Credence.SampleSpace

/-! ## 1. Usable event lists -/

structure Usable (events : List String) : Prop where
  ne_nil : events ≠ []
  length_le : events.length ≤ Cell.maxEvents
  empty_notMem : "" ∉ events
  nodup : events.Nodup

theorem Usable.of_perm {events events' : List String} (h : Usable events)
    (hperm : events.Perm events') : Usable events' where
  ne_nil := fun hnil => h.ne_nil (hnil ▸ hperm).eq_nil
  length_le := hperm.length_eq ▸ h.length_le
  empty_notMem := fun hmem => h.empty_notMem (hperm.mem_iff.mpr hmem)
  nodup := hperm.nodup h.nodup

theorem checkLabels_eq_ok_iff {earlier labels : List String} :
    checkLabels earlier labels = .ok () ↔
      "" ∉ labels ∧ labels.Nodup ∧ ∀ label ∈ labels, label ∉ earlier := by
  induction labels generalizing earlier with
  | nil => simp [checkLabels]
  | cons label labels ih =>
    rw [checkLabels, List.nodup_cons]
    by_cases hempty : label = ""
    · simp [hempty]
    · rw [if_neg (by rwa [String.isEmpty_iff])]
      by_cases hmem : label ∈ earlier
      · simp [hmem]
      · rw [if_neg hmem, ih]
        simp only [List.mem_cons, not_or]
        constructor
        -- the label joins the earlier ones, so no later label may equal it
        · rintro ⟨hne, hnodup, hearlier⟩
          refine ⟨⟨Ne.symm hempty, hne⟩, ⟨fun h => (hearlier label h).1 rfl, hnodup⟩, ?_⟩
          rintro l (rfl | hl)
          · exact hmem
          · exact (hearlier l hl).2
        · rintro ⟨⟨-, hne⟩, ⟨hnot, hnodup⟩, hearlier⟩
          exact ⟨hne, hnodup, fun l hl => ⟨fun h => hnot (h ▸ hl), hearlier l (.inr hl)⟩⟩

theorem checkEvents_eq_ok_iff {events : List String} :
    checkEvents events = .ok () ↔ Usable events := by
  rw [checkEvents]
  constructor
  · intro h
    split at h
    · simp at h
    · next hne =>
      split at h
      · simp at h
      · next hlen =>
        obtain ⟨hempty, hnodup, -⟩ := checkLabels_eq_ok_iff.mp h
        exact ⟨by simpa using hne, by omega, hempty, hnodup⟩
  · intro h
    rw [if_neg (by simpa using h.ne_nil), if_neg (Nat.not_lt.mpr h.length_le),
      checkLabels_eq_ok_iff]
    exact ⟨h.empty_notMem, h.nodup, fun _ _ => List.not_mem_nil⟩

/-! ## 2. The space -/

structure Spans (events : List String) (space : SampleSpace) : Prop where
  usable : Usable events
  events_eq : space.events = events
  enumerate : Cell.enumerate events.length = .ok space.cells
  indicators_eq : space.indicators = indicatorsOver events.length space.cells.toList

theorem span_eq_ok_iff {events : List String} {space : SampleSpace} :
    span events = .ok space ↔ Spans events space := by
  rw [span]
  constructor
  · intro h
    cases hcheck : checkEvents events with
    | error e =>
      rw [hcheck] at h
      cases h
    | ok u =>
      rw [hcheck] at h
      cases hcells : Cell.enumerate events.length with
      | error e =>
        rw [hcells] at h
        cases h
      | ok cells =>
        rw [hcells] at h
        cases h
        exact ⟨checkEvents_eq_ok_iff.mp hcheck, rfl, hcells, rfl⟩
  · intro h
    rw [checkEvents_eq_ok_iff.mpr h.usable, h.enumerate]
    obtain ⟨labels, cells, indicators⟩ := space
    obtain ⟨-, hevents, -, hindicators⟩ := h
    show Except.ok _ = _
    rw [← hindicators, ← hevents]

theorem exists_spans {events : List String} (h : Usable events)
    (hroom : events.length ≤ Cell.maxListed) : ∃ space, Spans events space := by
  let cells := (Array.range (2 ^ events.length)).map Cell.ofIndex
  have hcells : Cell.enumerate events.length = .ok cells := Cell.enumerate_of_le hroom
  exact ⟨⟨events, cells, indicatorsOver events.length cells.toList⟩, h, rfl, hcells, rfl⟩

theorem exists_spans_of_perm {events events' : List String} {space : SampleSpace}
    (h : Spans events space) (hperm : events.Perm events') : ∃ space', Spans events' space' :=
  exists_spans (h.usable.of_perm hperm) (hperm.length_eq ▸ (Cell.enumerate_eq_ok.mp h.enumerate).1)

/-- Usable events may be too many for an array of the cells over them. -/
theorem span_eq_capacityOverflow {events : List String} (h : Usable events)
    (hlength : Cell.maxListed < events.length) :
    span events = .error (.fault .capacityOverflow) := by
  rw [span, checkEvents_eq_ok_iff.mpr h, Cell.enumerate_of_lt hlength h.length_le]
  rfl

def sixtyLabels : List String := (List.range 60).map fun k => "E" ++ toString k

theorem usable_sixtyLabels : Usable sixtyLabels :=
  ⟨by decide, by decide, by decide +kernel, by decide +kernel⟩

theorem span_eq_refused {events : List String} {error : EventListError}
    (h : checkEvents events = .error error) : span events = .error (.refused error) := by
  rw [span, h]
  rfl

/-- An event list is refused, or there is no room for its cells, or it spans a space. -/
theorem span_cases (events : List String) :
    (∃ error, checkEvents events = .error error ∧ span events = .error (.refused error)) ∨
    (Usable events ∧ Cell.maxListed < events.length ∧
      span events = .error (.fault .capacityOverflow)) ∨
    ∃ space, Spans events space := by
  cases hcheck : checkEvents events with
  | error error => exact .inl ⟨error, rfl, span_eq_refused hcheck⟩
  | ok u =>
    have husable := checkEvents_eq_ok_iff.mp hcheck
    by_cases hroom : events.length ≤ Cell.maxListed
    · exact .inr (.inr (exists_spans husable hroom))
    · have hlength := Nat.not_le.mp hroom
      exact .inr (.inl ⟨husable, hlength, span_eq_capacityOverflow husable hlength⟩)

namespace Spans

variable {events : List String} {space : SampleSpace} (h : Spans events space)

include h

theorem length_le : events.length ≤ Cell.maxListed := (Cell.enumerate_eq_ok.mp h.enumerate).1

theorem numCells_eq : space.numCells = 2 ^ events.length :=
  Cell.size_of_enumerate h.enumerate

/-- The event with a given label occurs in the cells that have its bit. -/
theorem indicator_spec {label : String} (hlabel : label ∈ events) :
    ∃ indicator, space.indicator label = .ok indicator ∧ indicator.WellFormed ∧
      indicator.length = 2 ^ events.length ∧
      ∀ i < 2 ^ events.length, indicator.contains i = i.testBit (events.idxOf label) := by
  have hlt := List.idxOf_lt_length_of_mem hlabel
  have hindex : space.eventIndex label = some (events.idxOf label) := by
    obtain ⟨i, hi⟩ := Option.isSome_iff_exists.mp (List.isSome_idxOf?.mpr hlabel)
    rw [eventIndex, h.events_eq, List.idxOf_eq_getD_idxOf?, hi, Option.getD_some]
  refine ⟨Bits.ofBools (space.cells.toList.map (·.contains (events.idxOf label))), ?_,
    Bits.wellFormed_ofBools _, ?_, fun i hi => ?_⟩
  · have hget : space.indicators[events.idxOf label]? =
        some (Bits.ofBools (space.cells.toList.map (·.contains (events.idxOf label)))) := by
      rw [h.indicators_eq, indicatorsOver, List.getElem?_map, List.getElem?_range hlt]
      rfl
    rw [indicator, hindex]
    simp only [hget]
  · rw [Bits.ofBools, List.length_map, Array.length_toList, Cell.size_of_enumerate h.enumerate]
  · rw [Bits.contains_ofBools, List.getD_eq_getElem?_getD, List.getElem?_map,
      Array.getElem?_toList, Cell.getElem?_of_enumerate h.enumerate hi]
    show (Cell.ofIndex i).index.testBit _ = _
    rw [Cell.index_ofIndex_of_enumerate h.enumerate hi]

/-- A label that is not declared has no indicator. -/
theorem indicator_of_notMem {label : String} (hlabel : label ∉ events) :
    space.indicator label = .error (.refused ⟨label⟩) := by
  have hindex : space.eventIndex label = none := by
    rw [eventIndex, h.events_eq]
    exact List.idxOf?_eq_none_iff.mpr hlabel
  rw [indicator, hindex]

end Spans

end Credence.SampleSpace
