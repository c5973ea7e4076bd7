import Credence.Token

/-!
# Expressions

An expression is a chain of operands joined by `and` and `or`, with or without a known probability.
There is no precedence between the two connectives: a chain is read from left to right, so that
`A or B and C` means `(A or B) and C`. An operand is a simple event or a chain in parentheses.
-/

namespace Credence

/-- What joins two operands of a chain. -/
inductive Connective where
  | and
  | or
  deriving DecidableEq

mutual
/-- A simple event, or a chain in parentheses. -/
inductive Operand where
  | event (label : String)
  | group (chain : Chain)
  deriving DecidableEq
/-- One operand, or a chain with one more operand joined to it. -/
inductive Chain where
  | single (operand : Operand)
  | join (chain : Chain) (connective : Connective) (operand : Operand)
  deriving DecidableEq
end

structure Expression where
  chain : Chain
  probability : Option Float
  deriving DecidableEq

/-! ## Structure -/

/-- The operands of a chain in order, each with the connective before it. The first comes with
`or`, since joining it by `or` to nothing is what it means. -/
def Chain.steps : Chain → List (Connective × Operand)
  | .single operand => [(.or, operand)]
  | .join chain connective operand => chain.steps ++ [(connective, operand)]

/-- An expression is unknown when it has no probability. -/
def Expression.isUnknown (e : Expression) : Bool := e.probability.isNone

/-! ## Spelling -/

def Connective.token : Connective → Token
  | .and => .and
  | .or => .or

mutual
def Operand.tokens : Operand → List Token
  | .event label => [.event label]
  | .group chain => .openParen :: (chain.tokens ++ [.closeParen])
def Chain.tokens : Chain → List Token
  | .single operand => operand.tokens
  | .join chain connective operand => chain.tokens ++ connective.token :: operand.tokens
end

/-- The tokens that spell an expression: those of its chain, and its probability if it has one. -/
def Expression.tokens (e : Expression) : List Token :=
  e.chain.tokens ++ (e.probability.map Token.equals).toList

/-! ## Text -/

def Connective.text (c : Connective) : String := c.token.text

mutual
def Operand.text : Operand → String
  | .event label => label
  | .group chain => "(" ++ chain.text ++ ")"
/-- The text of a chain: a space to either side of each connective. -/
def Chain.text : Chain → String
  | .single operand => operand.text
  | .join chain connective operand => chain.text ++ " " ++ connective.text ++ " " ++ operand.text
end

def Expression.text (e : Expression) : String :=
  match e.probability with
  | none => e.chain.text
  | some probability => e.chain.text ++ " " ++ (Token.equals probability).text

end Credence
