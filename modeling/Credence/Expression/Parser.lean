import Credence.Expression
import Credence.Expression.Error
import Credence.Token.Lexer

/-!
# From tokens to expressions

Tokens are read one by one. What has been read so far is the chain at hand, inside the groups that
are still open. Every such state can be completed to an expression, so the first token that finds no
place is the earliest one that no expression could have there.
-/

namespace Credence

/-- What stands before the next operand of a chain: nothing, or a chain and a connective. -/
abbrev Joint := Option (Chain × Connective)

/-- The chain that an operand completes. -/
def Joint.attach : Joint → Operand → Chain
  | none, operand => .single operand
  | some (chain, connective), operand => .join chain connective operand

/-- What has been read of an expression. Each of the groups still open, innermost first, is an
operand to be, and stands at its own joint. -/
inductive Reading where
  /-- An operand must come next. -/
  | atOperand (groups : List Joint) (joint : Joint)
  /-- An operand was the last to be read. -/
  | afterOperand (groups : List Joint) (chain : Chain)
  | atEnd (chain : Chain) (probability : Float)

namespace Reading

def start : Reading := .atOperand [] none

def step : Reading → Token → Except ParseError Reading
  | .atOperand groups joint, .event label =>
    .ok (.afterOperand groups (joint.attach (.event label)))
  | .atOperand groups joint, .openParen => .ok (.atOperand (joint :: groups) none)
  | .atOperand _ _, token => .error (.unexpectedToken .operand (some token))
  | .afterOperand groups chain, .and => .ok (.atOperand groups (some (chain, .and)))
  | .afterOperand groups chain, .or => .ok (.atOperand groups (some (chain, .or)))
  | .afterOperand (joint :: groups) chain, .closeParen =>
    .ok (.afterOperand groups (joint.attach (.group chain)))
  -- inside a group no other token fits, a probability included
  | .afterOperand (_ :: _) _, token => .error (.unexpectedToken .closeParen (some token))
  | .afterOperand [] chain, .equals probability => .ok (.atEnd chain probability)
  | .afterOperand [] _, token => .error (.trailingInput token)
  | .atEnd _ _, token => .error (.trailingInput token)

/-- The expression that has been read when no more tokens come. -/
def finish : Reading → Except ParseError Expression
  | .atOperand _ _ => .error (.unexpectedToken .operand none)
  | .afterOperand (_ :: _) _ => .error (.unexpectedToken .closeParen none)
  | .afterOperand [] chain => .ok ⟨chain, none⟩
  | .atEnd chain probability => .ok ⟨chain, some probability⟩

end Reading

/-- The expression that tokens spell. Blanks have no place among them. -/
def Expression.parse (tokens : List Token) : Except ParseError Expression := do
  (← tokens.foldlM Reading.step Reading.start).finish

def Expression.read (text : String) (events : List String) : Except ExpressionError Expression := do
  let tokens ← (lex text events).mapError .unknownEvent
  (Expression.parse tokens).mapError .grammar

end Credence
