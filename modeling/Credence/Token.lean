import Credence.Decimal.Text
import Credence.Text.Quoted

/-!
# Tokens

The pieces that the text of an expression is made of, and the error of a label in it that no simple
event has.
-/

namespace Credence

/-- A piece of the text of an expression. An equals sign comes with the probability after it, and
an event with its label. -/
inductive Token where
  | blank
  | openParen
  | closeParen
  | and
  | or
  | equals (probability : Float)
  | event (label : String)
  deriving DecidableEq

namespace Token

/-- The text of a token. Any run of blanks is shown as one space. -/
def text : Token → String
  | .blank => " "
  | .openParen => "("
  | .closeParen => ")"
  | .and => "and"
  | .or => "or"
  | .equals probability => "= " ++ numberText probability
  | .event label => label

end Token

/-- A label that no simple event has. -/
structure UnknownEvent where
  label : String
  deriving DecidableEq

def UnknownEvent.message (e : UnknownEvent) : String :=
  "unknown event: " ++ Text.quoted e.label

end Credence
