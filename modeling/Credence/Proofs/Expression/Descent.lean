import Mathlib
import Credence.Expression.Parser

/-!
# Recursive descent

The grammar of expressions read as a program: an expression is a chain and perhaps a probability, a
chain is an operand and then pairs of a connective and an operand, and an operand is a label or a
chain in parentheses. Each part is taken from the front of the tokens and hands on those it leaves.
Reading token by token comes to the same for all tokens, down to the errors.
-/

namespace Credence

namespace Descent

/-! ## 1. The parts of an expression -/

/-- A part taken from the front of tokens, and the tokens behind it. -/
structure Part (α : Type) (ts : List Token) where
  item : α
  rest : List Token
  shorter : rest.length < ts.length

/-- Takes a token that has to be there. -/
def expect (token : Token) (expected : Expected) (ts : List Token) :
    Except ParseError (Part Unit ts) :=
  match ts with
  | [] => .error (.unexpectedToken expected none)
  | found :: rest =>
    if found = token then .ok ⟨(), rest, Nat.lt_succ_self _⟩
    else .error (.unexpectedToken expected (some found))

def connective? : Token → Option Connective
  | .and => some .and
  | .or => some .or
  | _ => none

mutual
def operand (ts : List Token) : Except ParseError (Part Operand ts) :=
  match ts with
  | .event label :: rest => .ok ⟨.event label, rest, Nat.lt_succ_self _⟩
  | .openParen :: inner => do
    let part ← chain inner
    let close ← expect .closeParen .closeParen part.rest
    have hclose := close.shorter.trans part.shorter
    return ⟨.group part.item, close.rest, hclose.trans (Nat.lt_succ_self _)⟩
  | ts => .error (.unexpectedToken .operand ts.head?)
termination_by (ts.length, 0)
def chain (ts : List Token) : Except ParseError (Part Chain ts) := do
  let first ← operand ts
  have := first.shorter
  joinAll ⟨.single first.item, first.rest, first.shorter⟩
termination_by (ts.length, 1)
/-- Joins the operands behind a chain, as long as connectives lead to them. -/
def joinAll {ts : List Token} (part : Part Chain ts) : Except ParseError (Part Chain ts) :=
  match h : part.rest with
  | [] => .ok part
  | token :: rest =>
    match connective? token with
    | none => .ok part
    | some connective => do
      have hrest : rest.length < part.rest.length := by rw [h, List.length_cons]; omega
      let next ← operand rest
      have hnext := next.shorter.trans hrest
      joinAll ⟨.join part.item connective next.item, next.rest, hnext.trans part.shorter⟩
termination_by (part.rest.length, 0)
end

/-- Behind the outermost chain there may be a probability, and nothing else. -/
def ending (chain : Chain) (ts : List Token) : Except ParseError Expression :=
  let (probability, rest) := match ts with
    | .equals p :: rest => (some p, rest)
    | rest => (none, rest)
  match rest with
  | [] => .ok ⟨chain, probability⟩
  | token :: _ => .error (.trailingInput token)

def input (ts : List Token) : Except ParseError Expression := do
  let part ← chain ts
  ending part.item part.rest

/-! ## 2. No connective behind a chain -/

/-- A connective behind the chain would have led to one more operand. -/
theorem connective?_eq_none_of_joinAll {ts : List Token} {part part' : Part Chain ts}
    (h : joinAll part = .ok part') : ∀ token ∈ part'.rest.head?, connective? token = none := by
  rw [joinAll] at h
  split at h
  · next hrest =>
    obtain rfl := Except.ok.inj h
    simp [hrest]
  · next token rest hrest =>
    split at h
    · next htoken =>
      obtain rfl := Except.ok.inj h
      simpa [hrest] using htoken
    · next connective htoken =>
      have hshorter : rest.length < part.rest.length := by rw [hrest, List.length_cons]; omega
      cases hnext : operand rest with
      | error => rw [hnext] at h; cases h
      | ok next =>
        rw [hnext] at h
        have := next.shorter
        exact connective?_eq_none_of_joinAll h
termination_by part.rest.length

theorem connective?_eq_none_of_chain {ts : List Token} {part : Part Chain ts}
    (h : chain ts = .ok part) : ∀ token ∈ part.rest.head?, connective? token = none := by
  rw [chain] at h
  cases hfirst : operand ts with
  | error => rw [hfirst] at h; cases h
  | ok first =>
    rw [hfirst] at h
    exact connective?_eq_none_of_joinAll h

/-! ## 3. Reading on from a state -/

/-- The expression that tokens complete, after what has been read already. -/
def readFrom (r : Reading) (ts : List Token) : Except ParseError Expression := do
  (← ts.foldlM Reading.step r).finish

theorem readFrom_connective {groups : List Joint} {chain : Chain} {token : Token} {rest : List Token}
    {connective : Connective} (h : connective? token = some connective) :
    readFrom (.afterOperand groups chain) (token :: rest) =
      readFrom (.atOperand groups (some (chain, connective))) rest := by
  cases token with
  | and => cases h; rfl
  | or => cases h; rfl
  | _ => cases h

theorem readFrom_group {groups : List Joint} {joint : Joint} {chain : Chain} {ts : List Token}
    (h : ∀ token ∈ ts.head?, connective? token = none) :
    readFrom (.afterOperand (joint :: groups) chain) ts =
      expect .closeParen .closeParen ts >>= fun close =>
        readFrom (.afterOperand groups (joint.attach (.group chain))) close.rest := by
  cases ts with
  | nil => rfl
  | cons token rest =>
    have htoken := h token rfl
    cases token with
    | and => cases htoken
    | or => cases htoken
    | _ => rfl

theorem readFrom_ending {chain : Chain} {ts : List Token}
    (h : ∀ token ∈ ts.head?, connective? token = none) :
    readFrom (.afterOperand [] chain) ts = ending chain ts := by
  cases ts with
  | nil => rfl
  | cons token rest =>
    have htoken := h token rfl
    cases token with
    | and => cases htoken
    | or => cases htoken
    | equals p => cases rest <;> rfl
    | _ => rfl

-- by the recursion of the descent: a part is read to the state behind it, whatever groups are open
mutual
theorem readFrom_operand (groups : List Joint) (joint : Joint) (ts : List Token) :
    readFrom (.atOperand groups joint) ts = operand ts >>= fun part =>
      readFrom (.afterOperand groups (joint.attach part.item)) part.rest := by
  cases ts with
  | nil => rw [operand.eq_def]; rfl
  | cons token rest =>
    cases token with
    | event label => rw [operand.eq_def]; rfl
    | openParen =>
      have hchain := readFrom_chain (joint :: groups) rest
      rw [operand]
      show readFrom (.atOperand (joint :: groups) none) rest = _
      rw [hchain, bind_assoc]
      cases h : chain rest with
      | error => rfl
      | ok part =>
        have hclose := connective?_eq_none_of_chain h
        show readFrom (.afterOperand (joint :: groups) part.item) part.rest = _
        rw [readFrom_group hclose]
        show _ = (expect .closeParen .closeParen part.rest >>= fun close => pure _) >>= _
        rw [bind_assoc]
        rfl
    | _ => rw [operand.eq_def]; rfl
termination_by (ts.length, 0)
theorem readFrom_chain (groups : List Joint) (ts : List Token) :
    readFrom (.atOperand groups none) ts = chain ts >>= fun part =>
      readFrom (.afterOperand groups part.item) part.rest := by
  rw [readFrom_operand, chain, bind_assoc]
  congr 1
  funext first
  have := first.shorter
  exact readFrom_joinAll groups ⟨.single first.item, first.rest, first.shorter⟩
termination_by (ts.length, 1)
theorem readFrom_joinAll {ts : List Token} (groups : List Joint) (part : Part Chain ts) :
    readFrom (.afterOperand groups part.item) part.rest = joinAll part >>= fun part' =>
      readFrom (.afterOperand groups part'.item) part'.rest := by
  rw [joinAll]
  split
  · rfl
  · next token rest hrest =>
    split
    · rfl
    · next connective htoken =>
      have hshorter : rest.length < part.rest.length := by rw [hrest, List.length_cons]; omega
      have hjoin : readFrom (.afterOperand groups part.item) part.rest =
          readFrom (.atOperand groups (some (part.item, connective))) rest := by
        rw [hrest, readFrom_connective htoken]
      rw [hjoin, readFrom_operand, bind_assoc]
      congr 1
      funext next
      have := next.shorter
      exact readFrom_joinAll groups ⟨.join part.item connective next.item, next.rest, _⟩
termination_by (part.rest.length, 0)
end

end Descent

theorem Expression.parse_eq_input (ts : List Token) : Expression.parse ts = Descent.input ts := by
  show Descent.readFrom (.atOperand [] none) ts = _
  rw [Descent.readFrom_chain, Descent.input]
  cases h : Descent.chain ts with
  | error => rfl
  | ok part => exact Descent.readFrom_ending (Descent.connective?_eq_none_of_chain h)

end Credence
