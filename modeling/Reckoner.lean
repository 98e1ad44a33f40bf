import Reckoner.Main
import Reckoner.Record
import Reckoner.Proofs.Reading.Standard
import Reckoner.Proofs.Reading.Nesting
import Reckoner.Proofs.Reading.Blame
import Reckoner.Proofs.Expr.RoundTrip
import Reckoner.Proofs.Lexing.Layout
import Reckoner.Proofs.Exchange.Session
import Reckoner.Proofs.Session.Transcript
import Reckoner.Proofs.Reading.Relocation
import Reckoner.Proofs.Evaluation.Substitution
import Reckoner.Proofs.Evaluation.Pointing
import Reckoner.Proofs.Evaluation.Printed
import Reckoner.Proofs.CommandLine.OneShot
import Reckoner.Proofs.Expr.Order
import Reckoner.Proofs.Session.Truncation
import Reckoner.Proofs.Expr.Height
import Reckoner.Proofs.Reading.Shape
import Reckoner.Proofs.Double.Text
import Reckoner.Proofs.Expr.Readability
import Reckoner.Proofs.Lexing.Blame
import Reckoner.Proofs.Lexing.Composition
import Reckoner.Proofs.Evaluation.Rendering
