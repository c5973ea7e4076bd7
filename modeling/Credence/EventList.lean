import Credence.Text.Character

/-!
# Event lists

The labels of the simple events may be given in one line, such as `A, B C`, in which commas and
spaces separate them.
-/

namespace Credence.EventList

def isSeparator (c : Char) : Bool := c = ',' || c = ' '

/-- Puts a run of characters in front of others, unless it is empty. -/
def consRun (run : List Char) (runs : List (List Char)) : List (List Char) :=
  if run.isEmpty then runs else run :: runs

/-- The run without separators that a text begins with, and the non-empty ones that follow. -/
def runsFrom : List Char → List Char × List (List Char)
  | [] => ([], [])
  | c :: text =>
    let (run, runs) := runsFrom text
    if isSeparator c then ([], consRun run runs) else (c :: run, runs)

/-- The longest runs of characters other than separators, in order. -/
def runs (text : List Char) : List (List Char) :=
  let (run, runs) := runsFrom text
  consRun run runs

/-- The labels in a line, without the blanks at its ends. Blanks other than the plain space may
stand inside a label. -/
def split (line : String) : List String :=
  (runs (Text.trim line.toList)).map String.ofList

end Credence.EventList
