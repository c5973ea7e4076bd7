import Credence.Inference
import Credence.Proofs.Bits.Construction
import Credence.Proofs.Cell.Events
import Credence.Proofs.Coverage.Evaluation
import Credence.Proofs.EventList
import Credence.Proofs.Expression.Descent
import Credence.Proofs.Expression.Known
import Credence.Proofs.Expression.NormalForm
import Credence.Proofs.Expression.Offence
import Credence.Proofs.Inference.Invariance
import Credence.Proofs.Inference.RoundTrip
import Credence.Proofs.Inference.Scaling
import Credence.Proofs.Inference.Verdict
import Credence.Proofs.LinearSystem.KnownPivots
import Credence.Proofs.LinearSystem.ReducedForm
import Credence.Proofs.LinearSystem.Tolerance
import Credence.Proofs.SampleSpace.Validity
import Credence.Proofs.Token.Number
