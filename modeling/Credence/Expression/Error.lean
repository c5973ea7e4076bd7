import Credence.Token

/-!
# Errors in expressions

Why a text is no expression: it mentions an unknown event, or its tokens are in no proper order.
-/

namespace Credence

/-- What the grammar calls for where a token does not fit. -/
inductive Expected where
  | operand
  | closeParen
  deriving DecidableEq

def Expected.text : Expected → String
  | .operand => "event or '('"
  | .closeParen => "')'"

inductive ParseError where
  /-- Something else was expected than the token found, or than the end of the tokens. -/
  | unexpectedToken (expected : Expected) (found : Option Token)
  | trailingInput (token : Token)
  deriving DecidableEq

def quotedToken (token : Token) : String := "'" ++ token.text ++ "'"

def foundText : Option Token → String
  | none => "end of input"
  | some token => quotedToken token

def ParseError.message : ParseError → String
  | .unexpectedToken expected found => s!"expected {expected.text}, found {foundText found}"
  | .trailingInput token => s!"unexpected trailing input starting at {quotedToken token}"

inductive ExpressionError where
  | unknownEvent (error : UnknownEvent)
  | grammar (error : ParseError)
  deriving DecidableEq

def ExpressionError.message : ExpressionError → String
  | .unknownEvent error => error.message
  | .grammar error => error.message

end Credence
