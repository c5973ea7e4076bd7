import Credence.Coverage
import Credence.Expression.Parser
import Credence.Fill
import Credence.Inference.Equations

/-!
# Inference

Finds the probability of the one expression that is written without it, from the probabilities of
the others and the axioms of probability. All steps are taken anew for each inference.
-/

namespace Credence

/-- Why an inference has no answer. -/
inductive InferenceError (α : Type) where
  | events (error : EventListError)
  | noExpressions
  | expression (error : ExpressionError)
  | system (error : SystemError α)
  deriving DecidableEq

def InferenceError.message : InferenceError Float → String
  | .events error => error.message
  | .noExpressions => "no expressions given"
  | .expression error => error.message
  | .system error => error.message

variable {α : Type} [Scalar α]

/-! ## Settings -/

/-- The settings of an inference: the tolerance of its linear system. -/
structure Config (α : Type) [Scalar α] where
  tolerance : α
  tolerance_nonneg : 0 ≤ tolerance

namespace Config

/-- The tolerance is one in a thousand million unless another one is set. -/
def standard : Config Float := ⟨1e-9, by decide +kernel⟩

def ofTolerance (tolerance : α) : Except (SystemError α) (Config α) :=
  if h : 0 ≤ tolerance then .ok ⟨tolerance, h⟩ else .error (.invalidTolerance tolerance)

end Config

/-! ## Steps -/

namespace Inference

abbrev Step (α β : Type) : Type := Logged (Note α) (Failure (InferenceError α)) β

def span (events : List String) : Step α SampleSpace := do
  let space ← (Logged.silent (SampleSpace.span events)).mapError (·.map .events)
  .leave [.spanned space.events space.numCells]
  return space

/-- The note of how the reading of a text ended, if part of it was dropped. -/
def endingNotes : Lexer.Ending → List (Note α)
  | .dropped rest => [.dropped rest]
  | _ => []

/-- Reads one text as an expression over the events. -/
def read (events : List String) (text : String) : Step α Expression := do
  let run := (Lexer.start text events).run
  .leave (endingNotes run.ending)
  let tokens ← .silent (liftRefusal (.expression ∘ .unknownEvent) run.significant)
  .leave [.lexed text tokens.length]
  let e ← .silent (liftRefusal (.expression ∘ .grammar) (Expression.parse tokens))
  .leave [.parsed text e]
  return e

/-- The row of an expression: the cells that it saturates. -/
def row (space : SampleSpace) (maxima : Array Nat) (e : Expression) : Step α Bits := do
  let coverage ←
    (Logged.silent (e.coverage space)).mapError (·.map (.expression ∘ .unknownEvent))
  .leave [.covered e coverage]
  let row ← .silent (liftFault (Fill.saturationRow maxima space.cells coverage))
  let cells := row.indices.filterMap fun i => space.cells[i]?.map (·.labelText space.events)
  .leave [.saturated e row, .saturatedCells e cells]
  return row

/-- The probability of the only expression without one, and how it was found. -/
def run (config : Config α) (events texts : List String) : Step α α := do
  let space ← span events
  -- the event list is looked at before the expressions
  if texts.isEmpty then .fail (.refused .noExpressions)
  let expressions ← texts.mapM (read space.events)
  let probabilities := expressions.map fun e => e.probability.map Scalar.ofFloat
  let unknown ← .silent (liftRefusal .system (findUnknown probabilities))
  match expressions[unknown]? with
  | none => .fail (.fault (.indexOutOfRange expressions.length unknown))
  | some e =>
    .leave [.sought unknown e]
    let maxima ← .silent (liftFault (Fill.maxima space.cells space.numEvents))
    let rows ← expressions.mapM (row space maxima)
    let p ← (solveEquationsLogged space.numCells rows probabilities config.tolerance).mapError
      (·.map .system)
    .leave [.answer e p]
    return p

end Inference

def infer (config : Config α) (events texts : List String) :
    Except (Failure (InferenceError α)) α :=
  (Inference.run config events texts).result

end Credence
