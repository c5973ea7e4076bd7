import Mathlib
import Credence.Proofs.Decimal.Scanning

/-!
# Patterns

A pattern can match at the front of a text in several ways, which are tried in turn. A repetition
takes all it can and gives characters back one by one, and an option is taken before it is left out.
In a sequence all ways of the second part are tried before the first part gives anything back. The
first way that works is the match, and it need not be the longest.
-/

namespace Credence

/-- A way to match: the piece at the front of the text, the part of it that a group captured, and
what follows the piece. -/
structure Match where
  piece : List Char
  captured : Option (List Char)
  rest : List Char
  deriving DecidableEq

namespace Match

def empty (text : List Char) : Match := ⟨[], none, text⟩

/-- A match together with one right after it. Of two captures the later one stays. -/
def append (m m' : Match) : Match :=
  ⟨m.piece ++ m'.piece, m'.captured <|> m.captured, m'.rest⟩

theorem append_empty (text : List Char) : (empty text).append = id := by
  funext m
  cases m with
  | mk piece captured rest => cases captured <;> rfl

end Match

/-- Classes of characters are given by what they contain. -/
inductive Pattern where
  | literal (word : List Char)
  | one (p : Char → Bool)
  /-- Any number of characters of a class. -/
  | many (p : Char → Bool)
  | optional (inner : Pattern)
  | seq (first second : Pattern)
  | group (inner : Pattern)

namespace Pattern

/-- At least one character of a class. -/
def plus (p : Char → Bool) : Pattern := .seq (.one p) (.many p)

/-- The ways to take characters of a class, more of them first. -/
def repeated (p : Char → Bool) : List Char → List Match
  | [] => [.empty []]
  | c :: text =>
    if p c then (repeated p text).map (Match.append ⟨[c], none, text⟩) ++ [.empty (c :: text)]
    else [.empty (c :: text)]

/-- The ways to match at the front of a text, in the order in which they are tried. -/
def ways : Pattern → List Char → List Match
  | .literal word, text =>
    if word.isPrefixOf text then [⟨word, none, text.drop word.length⟩] else []
  | .one _, [] => []
  | .one p, c :: text => if p c then [⟨[c], none, text⟩] else []
  | .many p, text => repeated p text
  | .optional inner, text => inner.ways text ++ [.empty text]
  | .seq first second, text =>
    (first.ways text).flatMap fun m => (second.ways m.rest).map m.append
  | .group inner, text => (inner.ways text).map fun m => { m with captured := some m.piece }

def first? (pattern : Pattern) (text : List Char) : Option Match := (pattern.ways text).head?

/-! ## 1. Equations -/

variable {p : Char → Bool}

theorem repeated_of_pos {c : Char} (hc : p c = true) (text : List Char) :
    repeated p (c :: text) =
      (repeated p text).map (Match.append ⟨[c], none, text⟩) ++ [.empty (c :: text)] :=
  if_pos hc

theorem repeated_of_neg {c : Char} (hc : p c = false) (text : List Char) :
    repeated p (c :: text) = [.empty (c :: text)] :=
  if_neg (ne_true_of_eq_false hc)

theorem ways_literal_append (word text : List Char) :
    (literal word).ways (word ++ text) = [⟨word, none, text⟩] := by
  have hfront : word.isPrefixOf (word ++ text) = true :=
    List.isPrefixOf_iff_prefix.mpr (List.prefix_append word text)
  have hways : (literal word).ways (word ++ text) =
      [⟨word, none, (word ++ text).drop word.length⟩] := if_pos hfront
  rw [hways, List.drop_left]

theorem ways_literal_eq_nil {word text : List Char} (h : ¬ word <+: text) :
    (literal word).ways text = [] :=
  if_neg (by rwa [List.isPrefixOf_iff_prefix])

theorem ways_one_of_pos {c : Char} (hc : p c = true) (text : List Char) :
    (one p).ways (c :: text) = [⟨[c], none, text⟩] :=
  if_pos hc

theorem ways_one_of_neg {c : Char} (hc : p c = false) (text : List Char) :
    (one p).ways (c :: text) = [] :=
  if_neg (ne_true_of_eq_false hc)

theorem ways_optional (inner : Pattern) (text : List Char) :
    (optional inner).ways text = inner.ways text ++ [.empty text] :=
  rfl

theorem ways_seq (first second : Pattern) (text : List Char) :
    (seq first second).ways text =
      (first.ways text).flatMap fun m => (second.ways m.rest).map m.append :=
  rfl

theorem ways_group (inner : Pattern) (text : List Char) :
    (group inner).ways text =
      (inner.ways text).map fun m => { m with captured := some m.piece } :=
  rfl

theorem first?_eq_head? (pattern : Pattern) (text : List Char) :
    pattern.first? text = (pattern.ways text).head? :=
  rfl

/-! ## 2. Repetitions -/

/-- Of a run of characters all are taken first, then all but the last, and so on down to none. -/
theorem ways_many {run rest : List Char} (hrun : ∀ c ∈ run, p c = true)
    (hrest : ∀ c ∈ rest.head?, p c = false) :
    (many p).ways (run ++ rest) = (List.range (run.length + 1)).reverse.map fun k =>
      ⟨run.take k, none, run.drop k ++ rest⟩ := by
  induction run with
  | nil =>
    cases rest with
    | nil => rfl
    | cons c rest => exact repeated_of_neg (hrest c rfl) rest
  | cons c run ih =>
    obtain ⟨hc, hrun⟩ := List.forall_mem_cons.mp hrun
    have htail : repeated p (run ++ rest) = _ := ih hrun
    -- the ways that take `c`, and after them the one that takes nothing
    show repeated p (c :: (run ++ rest)) = _
    rw [repeated_of_pos hc, htail, List.length_cons, List.range_succ_eq_map (n := run.length + 1),
      List.reverse_cons, List.map_append, List.map_map, ← List.map_reverse, List.map_map]
    rfl

/-- The first way leaves no character of the class at the front of the rest, and all others do. -/
theorem exists_ways_many (p : Char → Bool) (text : List Char) :
    ∃ fewer, (many p).ways text = ⟨text.takeWhile p, none, text.dropWhile p⟩ :: fewer ∧
      ∀ m ∈ fewer, ∃ c after, m.rest = c :: after ∧ p c = true := by
  have hrun : ∀ c ∈ text.takeWhile p, p c = true := fun _ hc => List.mem_takeWhile_imp hc
  have hways := ways_many hrun (Text.head_dropWhile p text)
  rw [List.takeWhile_append_dropWhile] at hways
  generalize text.takeWhile p = run at *
  rw [List.range_succ, List.reverse_append, List.reverse_singleton, List.singleton_append,
    List.map_cons, List.take_length, List.drop_length, List.nil_append] at hways
  refine ⟨_, hways, fun m hm => ?_⟩
  -- where fewer than all are taken, the next character of the run is left
  obtain ⟨k, hk, rfl⟩ := List.mem_map.mp hm
  have hlt : k < run.length := List.mem_range.mp (List.mem_reverse.mp hk)
  refine ⟨run[k], run.drop (k + 1) ++ text.dropWhile p, ?_, hrun _ (List.getElem_mem hlt)⟩
  show run.drop k ++ _ = _
  rw [List.drop_eq_getElem_cons hlt, List.cons_append]

/-- The second way gives back the last character. -/
theorem exists_ways_many_append {run rest : List Char} {last : Char}
    (hrun : ∀ c ∈ run, p c = true) (hlast : p last = true)
    (hrest : ∀ c ∈ rest.head?, p c = false) :
    ∃ fewer, (many p).ways (run ++ last :: rest) =
      ⟨run ++ [last], none, rest⟩ :: ⟨run, none, last :: rest⟩ :: fewer := by
  have hall : ∀ c ∈ run ++ [last], p c = true := by
    rw [List.forall_mem_append]
    exact ⟨hrun, List.forall_mem_singleton.mpr hlast⟩
  have hways := ways_many hall hrest
  rw [List.append_assoc, List.singleton_append, List.length_append, List.length_singleton,
    List.range_succ, List.range_succ, List.reverse_append, List.reverse_append] at hways
  simp only [List.reverse_singleton, List.singleton_append, List.map_cons] at hways
  rw [List.take_left, List.drop_left, List.singleton_append, List.take_of_length_le (by simp),
    List.drop_of_length_le (by simp), List.nil_append] at hways
  exact ⟨_, hways⟩

/-! ## 3. First ways -/

theorem first?_seq (first second : Pattern) (text : List Char) :
    (seq first second).first? text =
      (first.ways text).findSome? fun m => (second.first? m.rest).map m.append := by
  rw [first?_eq_head?, ways_seq, List.head?_flatMap]
  simp only [List.head?_map]
  rfl

theorem first?_group (inner : Pattern) (text : List Char) :
    (group inner).first? text =
      (inner.first? text).map fun m => { m with captured := some m.piece } := by
  rw [first?_eq_head?, ways_group, List.head?_map]
  rfl

theorem first?_many (p : Char → Bool) (text : List Char) :
    (many p).first? text = some ⟨text.takeWhile p, none, text.dropWhile p⟩ := by
  obtain ⟨fewer, hways, -⟩ := exists_ways_many p text
  rw [first?_eq_head?, hways, List.head?_cons]

/-- Where there is nothing to repeat, the second part decides. -/
theorem first?_many_seq_of_head {second : Pattern} {text : List Char}
    (h : ∀ c ∈ text.head?, p c = false) :
    (seq (many p) second).first? text = second.first? text := by
  have hways : (many p).ways text = [.empty text] := ways_many (List.forall_mem_nil _) h
  rw [first?_seq, hways, List.findSome?_singleton, Match.append_empty, Option.map_id]
  rfl

/-- A repetition keeps all it can take if the second part matches after that. -/
theorem first?_many_seq {second : Pattern} {text : List Char} {m : Match}
    (h : second.first? (text.dropWhile p) = some m) :
    (seq (many p) second).first? text =
      some (Match.append ⟨text.takeWhile p, none, text.dropWhile p⟩ m) := by
  obtain ⟨fewer, hways, -⟩ := exists_ways_many p text
  rw [first?_seq, hways, List.findSome?_cons, h]
  rfl

/-- Giving characters back does not help if the second part begins with none of them. -/
theorem first?_many_seq_eq_none {second : Pattern} {text : List Char}
    (h : second.first? (text.dropWhile p) = none)
    (hfewer : ∀ c after, p c = true → second.first? (c :: after) = none) :
    (seq (many p) second).first? text = none := by
  obtain ⟨fewer, hways, hleft⟩ := exists_ways_many p text
  rw [first?_seq, hways, List.findSome?_eq_none_iff, List.forall_mem_cons]
  refine ⟨by rw [h, Option.map_none], fun m hm => ?_⟩
  obtain ⟨c, after, hrest, hc⟩ := hleft m hm
  rw [hrest, hfewer c after hc, Option.map_none]

/-- A repetition gives back its last character if the second part needs it. -/
theorem first?_many_seq_append {second : Pattern} {run rest : List Char} {last : Char} {m : Match}
    (hrun : ∀ c ∈ run, p c = true) (hlast : p last = true)
    (hrest : ∀ c ∈ rest.head?, p c = false) (hnone : second.first? rest = none)
    (h : second.first? (last :: rest) = some m) :
    (seq (many p) second).first? (run ++ last :: rest) =
      some (Match.append ⟨run, none, last :: rest⟩ m) := by
  obtain ⟨fewer, hways⟩ := exists_ways_many_append hrun hlast hrest
  rw [first?_seq, hways, List.findSome?_cons, hnone, Option.map_none, List.findSome?_cons, h]
  rfl

theorem takeWhile_cons_ne_nil {c : Char} (hc : p c = true) (text : List Char) :
    (c :: text).takeWhile p ≠ [] := by
  rw [List.takeWhile_cons_of_pos hc]
  exact List.cons_ne_nil _ _

theorem first?_plus {text : List Char} (h : text.takeWhile p ≠ []) :
    (plus p).first? text = some ⟨text.takeWhile p, none, text.dropWhile p⟩ := by
  have hne : text ≠ [] := by
    rintro rfl
    exact h rfl
  obtain ⟨c, text, rfl⟩ := List.exists_cons_of_ne_nil hne
  have hc : p c = true := by
    by_contra hc
    exact h (List.takeWhile_cons_of_neg hc)
  show (seq (one p) (many p)).first? (c :: text) = _
  rw [first?_seq, ways_one_of_pos hc, List.findSome?_singleton, first?_many,
    List.takeWhile_cons_of_pos hc, List.dropWhile_cons_of_pos hc]
  rfl

theorem first?_plus_eq_none {text : List Char} (h : ∀ c ∈ text.head?, p c = false) :
    (plus p).first? text = none := by
  show (seq (one p) (many p)).first? text = none
  rw [first?_seq]
  cases text with
  | nil => rfl
  | cons c text => rw [ways_one_of_neg (h c rfl), List.findSome?_nil]

theorem first?_literal_eq_none {word text : List Char} (h : ¬ word <+: text) :
    (literal word).first? text = none := by
  rw [first?_eq_head?, ways_literal_eq_nil h, List.head?_nil]

theorem first?_literal_seq (word : List Char) (second : Pattern) (text : List Char) :
    (seq (literal word) second).first? (word ++ text) =
      (second.first? text).map (Match.append ⟨word, none, text⟩) := by
  rw [first?_seq, ways_literal_append, List.findSome?_singleton]

theorem first?_literal_seq_eq_none {word text : List Char} (h : ¬ word <+: text)
    (second : Pattern) : (seq (literal word) second).first? text = none := by
  rw [first?_seq, ways_literal_eq_nil h, List.findSome?_nil]

/-- An option is left out where the pattern does not match with it. -/
theorem first?_optional_seq (inner second : Pattern) (text : List Char) :
    (seq (optional inner) second).first? text =
      ((seq inner second).first? text).or (second.first? text) := by
  rw [first?_seq, first?_seq, ways_optional, List.findSome?_append, List.findSome?_singleton,
    Match.append_empty, Option.map_id]
  rfl

end Pattern
end Credence
