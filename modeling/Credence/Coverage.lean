import Credence.Expression
import Credence.SampleSpace

/-!
# Coverage

The cells that an expression selects. A simple event selects the cells that contain it. A chain
starts from no cells at all and takes in its operands one after the other, adding cells at each `or`
and keeping only the common ones at each `and`.
-/

namespace Credence

def Connective.combine : Connective → Bits → Bits → Except Fault Bits
  | .and => Bits.inter
  | .or => Bits.union

mutual
def Operand.coverage (space : SampleSpace) : Operand → Except (Failure UnknownEvent) Bits
  | .event label => space.indicator label
  | .group chain => chain.coverage space
def Chain.coverage (space : SampleSpace) : Chain → Except (Failure UnknownEvent) Bits
  | .single operand => do
    -- the first operand joins no cells at all
    let cells ← operand.coverage space
    liftFault (Connective.or.combine (Bits.zeros space.numCells) cells)
  | .join chain connective operand => do
    let before ← chain.coverage space
    let cells ← operand.coverage space
    liftFault (connective.combine before cells)
end

/-- The cells that an expression selects are those of its chain. -/
def Expression.coverage (space : SampleSpace) (e : Expression) :
    Except (Failure UnknownEvent) Bits :=
  e.chain.coverage space

end Credence
