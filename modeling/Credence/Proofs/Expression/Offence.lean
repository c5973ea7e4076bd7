import Mathlib
import Credence.Proofs.Expression.Grammar

/-!
# The earliest offence

Whatever has been read so far can be completed to an expression: an operand is supplied where one is
missing, and all open groups are closed. So tokens are read as far as any expression goes along with
them, and the token that is refused is the first one that no expression could have at its place. What
is expected there depends on the tokens before it alone.
-/

namespace Credence

/-! ## 1. Beginnings of expressions -/

/-- The tokens spell an expression. -/
def Sentence (ts : List Token) : Prop := ∃ e : Expression, ts = e.tokens

/-- Some expression begins with these tokens. -/
def Viable (ts : List Token) : Prop := ∃ e : Expression, ts <+: e.tokens

theorem Sentence.viable {ts : List Token} (h : Sentence ts) : Viable ts := by
  obtain ⟨e, rfl⟩ := h
  exact ⟨e, List.prefix_refl _⟩

theorem Viable.of_prefix {ts ts' : List Token} (h : Viable ts') (hfront : ts <+: ts') :
    Viable ts := by
  obtain ⟨e, he⟩ := h
  exact ⟨e, hfront.trans he⟩

namespace Reading

/-- The chain that is complete when all groups around it are closed. -/
def closeAll : List Joint → Chain → Chain
  | [], chain => chain
  | joint :: groups, chain => closeAll groups (joint.attach (.group chain))

theorem tokens_closeAll (groups : List Joint) (chain : Chain) :
    (closeAll groups chain).tokens =
      openTokens groups ++ chain.tokens ++ List.replicate groups.length .closeParen := by
  induction groups generalizing chain with
  | nil => simp [closeAll, openTokens]
  | cons joint groups ih =>
    rw [closeAll, ih, Joint.tokens_attach, Operand.tokens, openTokens, List.length_cons,
      List.replicate_succ]
    simp only [List.append_assoc, List.cons_append, List.nil_append]

/-- What has been read can be completed. -/
theorem viable_tokens (r : Reading) : Viable r.tokens := by
  have hafter : ∀ groups chain, Viable (afterOperand groups chain).tokens := by
    intro groups chain
    refine ⟨⟨closeAll groups chain, none⟩, ?_⟩
    rw [Expression.tokens_of_none, tokens_closeAll]
    exact List.prefix_append _ _
  cases r with
  | atOperand groups joint =>
    -- any label will do for the operand
    have hoperand : (afterOperand groups (joint.attach (.event ""))).tokens =
        (atOperand groups joint).tokens ++ [.event ""] := tokens_step rfl
    have hviable := hafter groups (joint.attach (.event ""))
    rw [hoperand] at hviable
    exact hviable.of_prefix (List.prefix_append _ _)
  | afterOperand groups chain => exact hafter groups chain
  | atEnd chain probability => exact Sentence.viable ⟨⟨chain, some probability⟩, rfl⟩

/-! ## 2. What is refused -/

theorem parse_eq_finish {ts : List Token} {r : Reading} (h : ts.foldlM step start = .ok r) :
    Expression.parse ts = r.finish := by
  rw [Expression.parse, h]
  rfl

theorem parse_eq_error {before after : List Token} {token : Token} {r : Reading}
    {error : ParseError} (h : before.foldlM step start = .ok r)
    (hstep : r.step token = .error error) :
    Expression.parse (before ++ token :: after) = .error error := by
  rw [Expression.parse, foldlM_append h, List.foldlM_cons, hstep]
  rfl

/-- All tokens can be read, or there is a first one that is refused. -/
theorem foldlM_step_cases (r : Reading) (ts : List Token) :
    (∃ r', ts.foldlM step r = .ok r') ∨
    ∃ before token after r' error, ts = before ++ token :: after ∧
      before.foldlM step r = .ok r' ∧ r'.step token = .error error := by
  induction ts generalizing r with
  | nil => exact .inl ⟨r, rfl⟩
  | cons token ts ih =>
    cases hstep : r.step token with
    | error error => exact .inr ⟨[], token, ts, r, error, rfl, rfl, hstep⟩
    | ok r₁ =>
      have hcons : ∀ ts', (token :: ts').foldlM step r = ts'.foldlM step r₁ := by
        intro ts'
        rw [List.foldlM_cons, hstep]
        rfl
      cases ih r₁ with
      | inl hread =>
        obtain ⟨r', hread⟩ := hread
        exact .inl ⟨r', (hcons ts).trans hread⟩
      | inr hrefused =>
        obtain ⟨before, token', after, r', error, rfl, hbefore, herror⟩ := hrefused
        exact .inr ⟨token :: before, token', after, r', error, rfl, (hcons before).trans hbefore,
          herror⟩

theorem sentence_iff {ts : List Token} {r : Reading} (h : ts.foldlM step start = .ok r) :
    Sentence ts ↔ ∃ e, r.finish = .ok e := by
  rw [← parse_eq_finish h]
  exact exists_congr fun e => (Expression.parse_eq_ok_iff ts e).symm

theorem viable_of_foldlM {ts : List Token} {r : Reading} (h : ts.foldlM step start = .ok r) :
    Viable ts := by
  have htokens : r.tokens = ts := tokens_foldlM_step h
  rw [← htokens]
  exact r.viable_tokens

/-- No expression goes on with a token that is refused. -/
theorem not_viable_of_step {before : List Token} {token : Token} {r : Reading} {error : ParseError}
    (h : before.foldlM step start = .ok r) (hstep : r.step token = .error error) :
    ¬ Viable (before ++ [token]) := by
  rintro ⟨e, after, heq⟩
  have hparse : Expression.parse (before ++ token :: after) = .error error :=
    parse_eq_error h hstep
  rw [List.append_assoc, List.singleton_append] at heq
  rw [heq, e.parse_tokens] at hparse
  cases hparse

/-- The error when something, or the end of the tokens, finds no place. -/
inductive Refuses : Reading → Option Token → ParseError → Prop
  | operand (groups : List Joint) (joint : Joint) (found : Option Token) :
    Refuses (.atOperand groups joint) found (.unexpectedToken .operand found)
  | closeParen (joint : Joint) (groups : List Joint) (chain : Chain) (found : Option Token) :
    Refuses (.afterOperand (joint :: groups) chain) found (.unexpectedToken .closeParen found)
  | trailing {r : Reading} {e : Expression} (hend : r.finish = .ok e) (token : Token) :
    Refuses r (some token) (.trailingInput token)

theorem refuses_of_step {r : Reading} {token : Token} {error : ParseError}
    (h : r.step token = .error error) : r.Refuses (some token) error := by
  unfold step at h
  split at h
  case h_3 =>
    cases h
    exact .operand _ _ _
  case h_7 =>
    cases h
    exact .closeParen _ _ _ _
  case h_9 =>
    cases h
    exact .trailing rfl _
  case h_10 =>
    cases h
    exact .trailing rfl _
  -- in all other cases the token is read
  all_goals cases h

theorem refuses_of_finish {r : Reading} {error : ParseError} (h : r.finish = .error error) :
    r.Refuses none error := by
  unfold finish at h
  split at h
  case h_1 =>
    cases h
    exact .operand _ _ _
  case h_2 =>
    cases h
    exact .closeParen _ _ _ _
  all_goals cases h

end Reading

/-! ## 3. Places -/

/-- The last token is a label or a closing parenthesis. -/
def EndsInOperand (ts : List Token) : Prop :=
  ∃ before last, ts = before ++ [last] ∧ (last = .closeParen ∨ ∃ label, last = .event label)

/-- More groups have been opened than closed. -/
def InsideGroup (ts : List Token) : Prop := ts.count .closeParen < ts.count .openParen

theorem endsInOperand_append_singleton {before : List Token} {last : Token} :
    EndsInOperand (before ++ [last]) ↔ last = .closeParen ∨ ∃ label, last = .event label := by
  constructor
  · rintro ⟨before', last', heq, hlast⟩
    have hlists := List.append_inj' heq rfl
    rw [List.singleton_inj.mp hlists.2]
    exact hlast
  · intro hlast
    exact ⟨before, last, rfl, hlast⟩

theorem not_endsInOperand_nil : ¬ EndsInOperand [] := by
  rintro ⟨before, last, heq, -⟩
  exact List.append_ne_nil_of_right_ne_nil before (List.cons_ne_nil last []) heq.symm

theorem Operand.endsInOperand (before : List Token) (operand : Operand) :
    EndsInOperand (before ++ operand.tokens) := by
  cases operand with
  | event label => exact ⟨before, .event label, rfl, .inr ⟨label, rfl⟩⟩
  | group chain =>
    refine ⟨before ++ .openParen :: chain.tokens, .closeParen, ?_, .inl rfl⟩
    rw [Operand.tokens, List.append_assoc, List.cons_append]

theorem Chain.endsInOperand (before : List Token) (chain : Chain) :
    EndsInOperand (before ++ chain.tokens) := by
  cases chain with
  | single operand => exact operand.endsInOperand before
  | join chain connective operand =>
    have htokens : before ++ (Chain.join chain connective operand).tokens =
        (before ++ chain.tokens ++ [connective.token]) ++ operand.tokens := by
      simp [Chain.tokens]
    rw [htokens]
    exact operand.endsInOperand _

theorem Connective.count_token (connective : Connective) :
    [connective.token].count .openParen = 0 ∧ [connective.token].count .closeParen = 0 := by
  cases connective <;> decide

mutual
/-- The groups in an operand are all closed. -/
theorem Operand.count_tokens : (operand : Operand) →
    operand.tokens.count .openParen = operand.tokens.count .closeParen
  | .event label => by simp [Operand.tokens]
  | .group chain => by
    have hchain := chain.count_tokens
    simp [Operand.tokens, List.count_append, hchain]
theorem Chain.count_tokens : (chain : Chain) →
    chain.tokens.count .openParen = chain.tokens.count .closeParen
  | .single operand => operand.count_tokens
  | .join chain connective operand => by
    have hchain := chain.count_tokens
    have hoperand := operand.count_tokens
    have hconnective := connective.count_token
    rw [Chain.tokens, ← List.singleton_append]
    simp only [List.count_append]
    omega
end

theorem Joint.count_tokens (joint : Joint) :
    joint.tokens.count .openParen = joint.tokens.count .closeParen := by
  cases joint with
  | none => rfl
  | some before =>
    have hchain := before.1.count_tokens
    have hconnective := before.2.count_token
    rw [Joint.tokens]
    simp only [List.count_append]
    omega

namespace Reading

/-- The number of groups that are open. -/
def depth : Reading → ℕ
  | .atOperand groups _ => groups.length
  | .afterOperand groups _ => groups.length
  | .atEnd _ _ => 0

theorem count_openTokens (groups : List Joint) :
    (openTokens groups).count .openParen =
      (openTokens groups).count .closeParen + groups.length := by
  induction groups with
  | nil => rfl
  | cons joint groups ih =>
    have hjoint := joint.count_tokens
    have hopen : [Token.openParen].count .openParen = 1 ∧ [Token.openParen].count .closeParen = 0 := by
      decide
    rw [openTokens, List.length_cons]
    simp only [List.count_append]
    omega

theorem insideGroup_tokens_iff (r : Reading) : InsideGroup r.tokens ↔ 0 < r.depth := by
  have hcount : r.tokens.count .openParen = r.tokens.count .closeParen + r.depth := by
    cases r with
    | atOperand groups joint =>
      have hgroups := count_openTokens groups
      have hjoint := joint.count_tokens
      simp only [tokens, depth, List.count_append]
      omega
    | afterOperand groups chain =>
      have hgroups := count_openTokens groups
      have hchain := chain.count_tokens
      simp only [tokens, depth, List.count_append]
      omega
    | atEnd chain probability =>
      have hchain := chain.count_tokens
      have hequals : [Token.equals probability].count .openParen = 0 ∧
          [Token.equals probability].count .closeParen = 0 := by simp
      simp only [tokens, depth, List.count_append]
      omega
  unfold InsideGroup
  omega

theorem not_endsInOperand_atOperand (groups : List Joint) (joint : Joint) :
    ¬ EndsInOperand (atOperand groups joint).tokens := by
  cases joint with
  | none =>
    rw [tokens, Joint.tokens.eq_1, List.append_nil]
    cases groups with
    | nil => exact not_endsInOperand_nil
    | cons joint groups =>
      rw [openTokens, ← List.append_assoc, endsInOperand_append_singleton]
      simp
  | some before =>
    rw [tokens, Joint.tokens.eq_2, ← List.append_assoc, endsInOperand_append_singleton]
    cases before.2 <;> simp [Connective.token]

end Reading

/-! ## 4. Blame -/

/-- The tokens up to which an expression could go on, and what comes then instead: a token that no
expression could have there, or the end of the tokens, which are no expression yet. -/
inductive Offence (ts : List Token) : List Token → Option Token → Prop
  | token {before after : List Token} {token : Token} (hts : ts = before ++ token :: after)
    (hbefore : Viable before) (htoken : ¬ Viable (before ++ [token])) : Offence ts before (some token)
  | ending (hts : Viable ts) (hsentence : ¬ Sentence ts) : Offence ts ts none

def ParseError.found : ParseError → Option Token
  | .unexpectedToken _ found => found
  | .trailingInput token => some token

/-- The error tells what was found, whether an expression was complete before it, and if not, whether
the innermost group could have been closed there. -/
structure Blames (before : List Token) (found : Option Token) (error : ParseError) : Prop where
  found_eq : error.found = found
  trailingInput_iff : (∃ token, error = .trailingInput token) ↔ found ≠ none ∧ Sentence before
  unexpectedToken_iff : (∃ expected, error = .unexpectedToken expected found) ↔
    ¬ (found ≠ none ∧ Sentence before)
  closeParen_iff : error = .unexpectedToken .closeParen found ↔
    EndsInOperand before ∧ InsideGroup before

theorem prefix_append_cons (before : List Token) (token : Token) (after : List Token) :
    before ++ [token] <+: before ++ token :: after :=
  ⟨after, (List.append_cons before token after).symm⟩

namespace Offence

variable {ts before before' : List Token} {found found' : Option Token}

theorem not_sentence (h : Offence ts before found) : ¬ Sentence ts := by
  cases h with
  | ending _ hsentence => exact hsentence
  | @token _ after token hts _ htoken =>
    intro hsentence
    rw [hts] at hsentence
    exact htoken (hsentence.viable.of_prefix (prefix_append_cons before token after))

/-- No longer part of the tokens begins an expression. -/
theorem prefix_of_viable (h : Offence ts before found) (hfront : before' <+: ts)
    (hviable : Viable before') : before' <+: before := by
  cases h with
  | ending => exact hfront
  | @token _ after token hts _ htoken =>
    rw [hts] at hfront
    obtain hle | ⟨rest, rfl⟩ := List.prefix_or_prefix_of_prefix hfront (List.prefix_append _ _)
    · exact hle
    · -- if there were more, it would begin with the token
      cases rest with
      | nil => rw [List.append_nil]
      | cons token' rest =>
        have hcons := (List.prefix_append_right_inj before).mp hfront
        obtain rfl := (List.cons_prefix_cons.mp hcons).1
        exact absurd (hviable.of_prefix (prefix_append_cons before token' rest)) htoken

theorem isPrefix (h : Offence ts before found) : before <+: ts ∧ Viable before := by
  cases h with
  | ending hts _ => exact ⟨List.prefix_refl ts, hts⟩
  | token hts hbefore _ =>
    rw [hts]
    exact ⟨List.prefix_append _ _, hbefore⟩

theorem unique (h : Offence ts before found) (h' : Offence ts before' found') :
    before = before' ∧ found = found' := by
  have hle := h'.prefix_of_viable h.isPrefix.1 h.isPrefix.2
  have hge := h.prefix_of_viable h'.isPrefix.1 h'.isPrefix.2
  obtain rfl : before = before' := hle.eq_of_length (le_antisymm hle.length_le hge.length_le)
  refine ⟨rfl, ?_⟩
  -- what is found is the first of the tokens that are left
  have hhead : ∀ found, Offence ts before found → found = (ts.drop before.length).head? := by
    intro found h
    cases h with
    | ending => simp
    | token hts => simp [hts]
  rw [hhead found h, hhead found' h']

end Offence

namespace Blames

variable {before : List Token} {found : Option Token} {error error' : ParseError}

theorem unique (h : Blames before found error) (h' : Blames before found error') :
    error = error' := by
  have hfound := h.found_eq
  have hfound' := h'.found_eq
  cases error with
  | trailingInput token =>
    obtain ⟨token', rfl⟩ := h'.trailingInput_iff.mpr (h.trailingInput_iff.mp ⟨token, rfl⟩)
    rw [Option.some.inj (hfound.trans hfound'.symm)]
  | unexpectedToken expected =>
    subst hfound
    obtain ⟨expected', rfl⟩ := h'.unexpectedToken_iff.mpr (h.unexpectedToken_iff.mp ⟨expected, rfl⟩)
    have hclose := h.closeParen_iff.trans h'.closeParen_iff.symm
    simp only [ParseError.found, ParseError.unexpectedToken.injEq, and_true] at hclose ⊢
    cases expected <;> cases expected' <;> simp at hclose ⊢

theorem of_not_sentence {expected : Expected} (hnot : ¬ Sentence before)
    (hclose : expected = .closeParen ↔ EndsInOperand before ∧ InsideGroup before) :
    Blames before found (.unexpectedToken expected found) where
  found_eq := rfl
  trailingInput_iff := iff_of_false (by simp) fun h => hnot h.2
  unexpectedToken_iff := iff_of_true ⟨expected, rfl⟩ fun h => hnot h.2
  closeParen_iff := by
    rw [← hclose]
    simp

theorem of_sentence {token : Token} (hbefore : Sentence before) (hinside : ¬ InsideGroup before) :
    Blames before (some token) (.trailingInput token) where
  found_eq := rfl
  trailingInput_iff := iff_of_true ⟨token, rfl⟩ ⟨Option.some_ne_none token, hbefore⟩
  unexpectedToken_iff := iff_of_false (by simp) fun h => h ⟨Option.some_ne_none token, hbefore⟩
  closeParen_iff := iff_of_false (by simp) fun h => hinside h.2

end Blames

namespace Reading

theorem depth_of_finish {r : Reading} {e : Expression} (h : r.finish = .ok e) : r.depth = 0 := by
  unfold finish at h
  split at h
  case h_3 => rfl
  case h_4 => rfl
  all_goals cases h

theorem Refuses.blames {before : List Token} {r : Reading} (hread : before.foldlM step start = .ok r)
    {found : Option Token} {error : ParseError} (h : r.Refuses found error) :
    Blames before found error := by
  have hsentence := sentence_iff hread
  have hinside := r.insideGroup_tokens_iff
  have htokens : r.tokens = before := tokens_foldlM_step hread
  rw [htokens] at hinside
  cases h with
  | operand groups joint =>
    have hend := not_endsInOperand_atOperand groups joint
    rw [htokens] at hend
    apply Blames.of_not_sentence
    · rw [hsentence]
      rintro ⟨e, hfinish⟩
      cases hfinish
    · exact iff_of_false (by decide) fun h => hend h.1
  | closeParen joint groups chain =>
    have hend := chain.endsInOperand (openTokens (joint :: groups))
    rw [show openTokens (joint :: groups) ++ chain.tokens = before from htokens] at hend
    apply Blames.of_not_sentence
    · rw [hsentence]
      rintro ⟨e, hfinish⟩
      cases hfinish
    · exact iff_of_true rfl ⟨hend, hinside.mpr (Nat.succ_pos _)⟩
  | @trailing _ e hfinish token =>
    apply Blames.of_sentence (hsentence.mpr ⟨e, hfinish⟩)
    rw [hinside, depth_of_finish hfinish]
    exact Nat.lt_irrefl 0

end Reading

/-- Tokens that are no expression are blamed where they first leave all expressions, and what is
refused is met with the error that its place calls for. -/
theorem Expression.exists_offence {ts : List Token} {error : ParseError}
    (h : Expression.parse ts = .error error) :
    ∃ before found, Offence ts before found ∧ Blames before found error := by
  cases Reading.foldlM_step_cases Reading.start ts with
  | inl hread =>
    obtain ⟨r, hread⟩ := hread
    rw [Reading.parse_eq_finish hread] at h
    have hsentence : ¬ Sentence ts := by
      rw [Reading.sentence_iff hread, h]
      rintro ⟨e, heq⟩
      cases heq
    exact ⟨ts, none, .ending (Reading.viable_of_foldlM hread) hsentence,
      (Reading.refuses_of_finish h).blames hread⟩
  | inr hrefused =>
    obtain ⟨before, token, after, r, error', rfl, hread, hstep⟩ := hrefused
    rw [Reading.parse_eq_error hread hstep] at h
    obtain rfl : error' = error := Except.error.inj h
    exact ⟨before, some token,
      .token rfl (Reading.viable_of_foldlM hread) (Reading.not_viable_of_step hread hstep),
      (Reading.refuses_of_step hstep).blames hread⟩

/-- The error blames the earliest offence. Before it stand tokens that an expression begins with, and
with it no expression does. If an expression is complete before the offending token, the input is
trailing. Otherwise the token, or the end of the tokens, is unexpected, and a closing parenthesis was
called for exactly after an operand inside an open group. -/
theorem Expression.parse_eq_error_iff (ts : List Token) (error : ParseError) :
    Expression.parse ts = .error error ↔
      ∃ before found, Offence ts before found ∧ Blames before found error := by
  constructor
  · exact Expression.exists_offence
  · rintro ⟨before, found, hoffence, hblames⟩
    cases hparse : Expression.parse ts with
    | ok e => exact absurd ⟨e, (Expression.parse_eq_ok_iff ts e).mp hparse⟩ hoffence.not_sentence
    | error error' =>
      obtain ⟨before', found', hoffence', hblames'⟩ := Expression.exists_offence hparse
      obtain ⟨rfl, rfl⟩ := hoffence.unique hoffence'
      rw [hblames.unique hblames']

/-- Inside of a group a probability comes too early. -/
example : Expression.parse [.openParen, .event "A", .equals 0.5, .closeParen] =
    .error (.unexpectedToken .closeParen (some (.equals 0.5))) := rfl

end Credence
