import Credence.Bits
import Credence.Expression
import Credence.Text.Quoted

/-!
# Notes

What an inference reports about its steps while it goes on.
-/

namespace Credence

/-- How closely one has to look to see a note. -/
inductive Level where
  | debug
  | trace
  deriving DecidableEq

/-- A step of an inference. -/
inductive Note (α : Type) where
  | spanned (events : List String) (numCells : Nat)
  /-- No token was at the front of this text. -/
  | dropped (rest : List Char)
  | lexed (text : String) (numTokens : Nat)
  | parsed (text : String) (e : Expression)
  | sought (index : Nat) (e : Expression)
  | covered (e : Expression) (coverage : Bits)
  | saturated (e : Expression) (row : Bits)
  | saturatedCells (e : Expression) (cells : List String)
  | pivot (row column : Nat)
  | reduced (numRows : Nat) (pivots : List Nat)
  | inconsistent
  | noPivot (column : Nat)
  | answer (e : Expression) (probability : α)

namespace Note

/-- Lists that are as long as there are cells or columns are shown only to a closer look. -/
def level {α : Type} : Note α → Level
  | .saturatedCells _ _ => .trace
  | .pivot _ _ => .trace
  | _ => .debug

def columnsText (columns : List Nat) : String :=
  "[" ++ ", ".intercalate (columns.map toString) ++ "]"

def text : Note Float → String
  | .spanned events numCells =>
    s!"sample space over {Text.quotedList events}: {numCells} cells"
  | .dropped rest => s!"lexer stopped, dropping {Text.quoted (String.ofList rest)}"
  | .lexed text numTokens => s!"lex({Text.quoted text}) -> {numTokens} tokens"
  | .parsed text e => s!"parsed {Text.quoted text} as {e.text}"
  | .sought index e => s!"unknown expression: #{index} ({e.text})"
  | .covered e coverage => s!"eval({e.text}) -> {coverage.text}"
  | .saturated e row => s!"saturation({e.text}) = {row.text}"
  | .saturatedCells e cells =>
    let names := " ".intercalate cells
    s!"saturated cells of {e.text}: {names}"
  | .pivot row column => s!"pivot at row {row}, column {column}"
  | .reduced numRows pivots => s!"reduced {numRows} rows, pivots = {columnsText pivots}"
  | .inconsistent => "known equations are inconsistent"
  | .noPivot column => s!"no pivot for cell column {column}"
  | .answer e probability => s!"P({e.text}) = {numberText probability}"

end Note
end Credence
