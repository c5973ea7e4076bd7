import Mathlib
import Credence.Bits
import Credence.Proofs.Bits.Indices
import Credence.Proofs.Word

/-!
# Bit vectors as lists of booleans

A bit vector that is built and combined by the operations on bit vectors holds the list of booleans
that the same operations on lists lead to. It has the words that the list calls for and nothing set
beyond it, so that comparing words compares lists, and counting the bits of words counts booleans.
-/

namespace Credence.Bits

/-! ## 1. Counting -/

theorem length_setBits (word : BitVec 64) : (setBits word).length = word.cpop.toNat := by
  have hnodup : (setBits word).Nodup := (pairwise_setBits word).imp fun h => Nat.ne_of_lt h
  have hset : (setBits word).toFinset =
      (Finset.range 64).filter fun i => word.getLsbD i = true := by
    rw [setBits, List.toFinset_filter, List.toFinset_range]
  rw [BitVec.toNat_cpop, Word.cpopNatRec_eq_card, ← hset, List.toFinset_card_of_nodup hnodup]

theorem countWords_eq_length (base : ℕ) (words : List (BitVec 64)) :
    countWords words = (bitsFrom base words).length := by
  induction words generalizing base with
  | nil => rfl
  | cons word words ih =>
    rw [countWords, bitsFrom, List.length_append, List.length_map, length_setBits, ih (base + 64)]

/-- Counting word by word counts the indices of the set bits. -/
theorem count_eq_length_indices (b : Bits) : b.count = b.indices.length := by
  rw [count, indices_eq_bitsFrom, countWords_eq_length 0]

theorem WellFormed.indices_eq_filter {b : Bits} (h : b.WellFormed) :
    b.indices = (List.range b.length).filter b.contains := by
  -- both lists ascend, so it is enough that they have the same members
  apply List.Pairwise.eq_of_mem_iff (pairwise_indices b) (List.pairwise_lt_range.filter _)
  intro i
  rw [h.mem_indices, List.mem_filter, List.mem_range]
  exact ⟨fun hi => ⟨lt_length_of_contains hi, hi⟩, fun hi => hi.2⟩

theorem WellFormed.count_eq {b : Bits} (h : b.WellFormed) :
    b.count = (List.range b.length).countP b.contains := by
  rw [count_eq_length_indices, h.indices_eq_filter, List.countP_eq_length_filter]

/-! ## 2. Bits and booleans -/

theorem length_toBools (b : Bits) : b.toBools.length = b.length := by
  rw [toBools, List.length_map, List.length_range]

theorem getD_toBools (b : Bits) (i : ℕ) : b.toBools.getD i false = b.contains i := by
  rw [toBools, List.getD_eq_getElem?_getD, List.getElem?_map]
  by_cases hi : i < b.length
  · rw [List.getElem?_range hi]
    rfl
  · rw [List.getElem?_eq_none (by rw [List.length_range]; omega),
      contains_of_length_le (Nat.le_of_not_lt hi)]
    rfl

theorem WellFormed.ofBools_toBools {b : Bits} (h : b.WellFormed) : ofBools b.toBools = b := by
  apply (wellFormed_ofBools _).ext h
  · exact length_toBools b
  · intro i
    rw [contains_ofBools, getD_toBools]

theorem WellFormed.eq_iff {a b : Bits} (ha : a.WellFormed) (hb : b.WellFormed) :
    a = b ↔ a.length = b.length ∧ ∀ i < a.length, a.contains i = b.contains i := by
  constructor
  · rintro rfl
    exact ⟨rfl, fun _ _ => rfl⟩
  · rintro ⟨hlen, h⟩
    apply ha.ext hb hlen
    intro i
    by_cases hi : i < a.length
    · exact h i hi
    · rw [contains_of_length_le (Nat.le_of_not_lt hi), contains_of_length_le (by omega)]

/-- The vector has the words it should have, and its bits are the given booleans. -/
structure Stores (b : Bits) (bools : List Bool) : Prop where
  wellFormed : b.WellFormed
  toBools_eq : b.toBools = bools

theorem Stores.length_eq {b : Bits} {bools : List Bool} (h : b.Stores bools) :
    b.length = bools.length := by
  rw [← h.toBools_eq, length_toBools]

theorem Stores.contains_eq {b : Bits} {bools : List Bool} (h : b.Stores bools) (i : ℕ) :
    b.contains i = bools.getD i false := by
  rw [← h.toBools_eq, getD_toBools]

theorem stores_of_contains {b : Bits} {bools : List Bool} (hwell : b.WellFormed)
    (hlen : b.length = bools.length) (h : ∀ i, b.contains i = bools.getD i false) :
    b.Stores bools where
  wellFormed := hwell
  toBools_eq := by
    apply List.ext_getElem
    · rw [length_toBools, hlen]
    · intro i hi hi'
      rw [List.getElem_eq_getD false, List.getElem_eq_getD false, getD_toBools, h]

/-! ## 3. Operations -/

theorem stores_zeros (length : ℕ) : (zeros length).Stores (List.replicate length false) := by
  apply stores_of_contains (wellFormed_zeros length) List.length_replicate.symm
  intro i
  rw [contains_zeros, List.getD_eq_getElem?_getD, List.getElem?_getD_replicate_default_eq]

theorem stores_ones (length : ℕ) : (ones length).Stores (List.replicate length true) := by
  apply stores_of_contains (wellFormed_ones length) List.length_replicate.symm
  intro i
  show (ones length).contains i = (List.replicate length true).getD i false
  rw [contains_ones]
  by_cases hi : i < length
  · rw [List.getD_replicate true hi, decide_eq_true hi]
  · rw [List.getD_eq_default _ _ (by rw [List.length_replicate]; omega), decide_eq_false hi]

theorem stores_ofBools (bools : List Bool) : (ofBools bools).Stores bools :=
  stores_of_contains (wellFormed_ofBools bools) rfl (contains_ofBools bools)

theorem getD_zipWith {g : Bool → Bool → Bool} (hg : g false false = false) {xs ys : List Bool}
    (hlen : xs.length = ys.length) (i : ℕ) :
    (List.zipWith g xs ys).getD i false = g (xs.getD i false) (ys.getD i false) := by
  by_cases hi : i < xs.length
  · have hi' : i < ys.length := hlen ▸ hi
    simp [hi, hi']
  · rw [List.getD_eq_default _ _ (by simp; omega), List.getD_eq_default _ _ (by omega),
      List.getD_eq_default _ _ (by omega), hg]

/-- Words are only combined if the lengths agree. -/
theorem length_eq_of_zipWords {f : BitVec 64 → BitVec 64 → BitVec 64} {a b c : Bits}
    (h : zipWords f a b = .ok c) : a.length = b.length := by
  unfold zipWords at h
  split at h
  next hlen => exact hlen
  next => cases h

theorem Stores.zipWords {f : BitVec 64 → BitVec 64 → BitVec 64} {g : Bool → Bool → Bool}
    (hfg : ∀ x y i, (f x y).getLsbD i = g (x.getLsbD i) (y.getLsbD i)) (hg : g false false = false)
    {a b c : Bits} {xs ys : List Bool} (ha : a.Stores xs) (hb : b.Stores ys)
    (h : Bits.zipWords f a b = .ok c) : c.Stores (List.zipWith g xs ys) := by
  have hlen := length_eq_of_zipWords h
  have hlists : xs.length = ys.length := by rw [← ha.length_eq, ← hb.length_eq, hlen]
  obtain ⟨c', hc', hwell, hlength, hcontains⟩ :=
    zipWords_spec hfg hg ha.wellFormed hb.wellFormed hlen
  rw [h, Except.ok.injEq] at hc'
  subst hc'
  apply stores_of_contains hwell
  · rw [hlength, ha.length_eq, List.length_zipWith, ← hlists, Nat.min_self]
  · intro i
    rw [hcontains, ha.contains_eq, hb.contains_eq, getD_zipWith hg hlists]

/-- A bit vector made by the operations, and the list of booleans that the same operations on lists
lead to. -/
inductive Built : Bits → List Bool → Prop
  | zeros (length : ℕ) : Built (zeros length) (List.replicate length false)
  | ones (length : ℕ) : Built (ones length) (List.replicate length true)
  | ofBools (bools : List Bool) : Built (ofBools bools) bools
  | union {a b c : Bits} {xs ys : List Bool} (ha : Built a xs) (hb : Built b ys)
    (h : a.union b = .ok c) : Built c (List.zipWith (· || ·) xs ys)
  | inter {a b c : Bits} {xs ys : List Bool} (ha : Built a xs) (hb : Built b ys)
    (h : a.inter b = .ok c) : Built c (List.zipWith (· && ·) xs ys)

theorem Built.stores {b : Bits} {bools : List Bool} (h : Built b bools) : b.Stores bools := by
  induction h with
  | zeros length => exact stores_zeros length
  | ones length => exact stores_ones length
  | ofBools bools => exact stores_ofBools bools
  | union _ _ h ha hb => exact ha.zipWords (fun _ _ _ => BitVec.getLsbD_or) rfl hb h
  | inter _ _ h ha hb => exact ha.zipWords (fun _ _ _ => BitVec.getLsbD_and) rfl hb h

/-- Whatever has been built holds its list of booleans, in as many words as that takes and with
nothing set beyond it. So equality of words is equality of lists, the set bits of the words are the
true booleans, and combining words combines booleans. -/
theorem toBools_of_built {a b : Bits} {xs ys : List Bool} (ha : Built a xs) (hb : Built b ys) :
    a.toBools = xs ∧ a.length = xs.length ∧
    a.words.length = a.length ⌈/⌉ 64 ∧ (∀ i, a.length ≤ i → wordBit a.words i = false) ∧
    (a = b ↔ a.length = b.length ∧ ∀ i < a.length, a.contains i = b.contains i) ∧
    a.count = (List.range a.length).countP a.contains ∧
    (∀ i, a.length ≤ i → a.contains i = false) ∧
    (a.length = b.length →
      (∃ c, a.union b = .ok c ∧ c.length = a.length ∧
        ∀ i, c.contains i = (a.contains i || b.contains i)) ∧
      ∃ c, a.inter b = .ok c ∧ c.length = a.length ∧
        ∀ i, c.contains i = (a.contains i && b.contains i)) ∧
    ofBools a.toBools = a := by
  have hstores := ha.stores
  have hwell := hstores.wellFormed
  have hwell' := hb.stores.wellFormed
  have hwords : a.words.length = a.length ⌈/⌉ 64 := by
    rw [hwell.length, Nat.ceilDiv_eq_add_pred_div]
    rfl
  refine ⟨hstores.toBools_eq, hstores.length_eq, hwords, hwell.clear, hwell.eq_iff hwell',
    hwell.count_eq, fun _ => contains_of_length_le, fun hlen => ?_, hwell.ofBools_toBools⟩
  obtain ⟨c, hunion, -, hc⟩ := union_spec hwell hwell' hlen
  obtain ⟨d, hinter, -, hd⟩ := inter_spec hwell hwell' hlen
  exact ⟨⟨c, hunion, hc⟩, ⟨d, hinter, hd⟩⟩

theorem toBools_of_built_two_words :
    (ones 65).inter (ofBools (List.replicate 64 false ++ [true])) = .ok ⟨[0, 1], 65⟩ ∧
      toBools ⟨[0, 1], 65⟩ = List.replicate 64 false ++ [true] ∧
      (⟨[0, 1], 65⟩ : Bits) = ofBools (List.replicate 64 false ++ [true]) ∧
      count ⟨[0, 1], 65⟩ = (List.range 65).countP (contains ⟨[0, 1], 65⟩) := by
  have hinter : (ones 65).inter (ofBools (List.replicate 64 false ++ [true])) =
      .ok ⟨[0, 1], 65⟩ := by decide +kernel
  have hlist : List.zipWith (· && ·) (List.replicate 65 true) (List.replicate 64 false ++ [true]) =
      List.replicate 64 false ++ [true] := by decide +kernel
  have hb := Built.ofBools (List.replicate 64 false ++ [true])
  have ha := Built.inter (.ones 65) hb hinter
  rw [hlist] at ha
  obtain ⟨htoBools, -, -, -, heq, hcount, -⟩ := toBools_of_built ha hb
  refine ⟨hinter, htoBools, heq.mpr ⟨rfl, ?_⟩, hcount⟩
  decide +kernel

/-! ## 4. The walk through the set bits -/

/-- The walk through whatever has been built returns the indices below its length at which it has a
bit, in ascending order and so as many as there are, and from then on nothing. -/
theorem yields_indices_of_built {b : Bits} {bools : List Bool} (h : Built b bools) :
    Walk.Yields Cursor.next b.cursor b.indices ∧
    b.indices.Pairwise (· < ·) ∧
    (∀ i, i ∈ b.indices ↔ i < b.length ∧ b.contains i = true) ∧
    b.indices.length = b.count ∧
    ∀ j k, j ≤ k → Walk.item Cursor.next b.cursor j = none →
      Walk.item Cursor.next b.cursor k = none := by
  have hyields : Walk.Yields Cursor.next b.cursor b.indices := b.cursor.yields_toList
  have hwell := h.stores.wellFormed
  refine ⟨hyields, pairwise_indices b, fun i => ?_, (count_eq_length_indices b).symm, ?_⟩
  · rw [hwell.mem_indices]
    exact ⟨fun hi => ⟨lt_length_of_contains hi, hi⟩, fun hi => hi.2⟩
  · intro j k hle hj
    exact hyields.item_of_le hj hle

/-- The empty word in the middle is passed over, and the last word is not full. -/
theorem yields_indices_of_built_three_words :
    (ofBools (List.replicate 3 false ++ [true] ++ List.replicate 125 false ++ [true])).words =
        [8, 0, 2] ∧
      indices ⟨[8, 0, 2], 130⟩ = [3, 129] ∧
      Walk.item Cursor.next (cursor ⟨[8, 0, 2], 130⟩) 1 = some 129 ∧
      ∀ k, 2 ≤ k → Walk.item Cursor.next (cursor ⟨[8, 0, 2], 130⟩) k = none := by
  have hwords : ofBools (List.replicate 3 false ++ [true] ++ List.replicate 125 false ++ [true]) =
      ⟨[8, 0, 2], 130⟩ := by decide +kernel
  have hindices : indices ⟨[8, 0, 2], 130⟩ = [3, 129] := by decide +kernel
  have hbuilt := Built.ofBools
    (List.replicate 3 false ++ [true] ++ List.replicate 125 false ++ [true])
  rw [hwords] at hbuilt
  have hitem := (yields_indices_of_built hbuilt).1
  rw [hindices] at hitem
  refine ⟨congrArg words hwords, hindices, hitem 1, fun k hk => ?_⟩
  rw [hitem k]
  exact List.getElem?_eq_none hk

end Credence.Bits
