import NumericSteps.Main
import NumericSteps.Matrix.Checked
import NumericSteps.Matrix.Json
import NumericSteps.Proofs.Workspace.Pipeline
import NumericSteps.Proofs.Workspace.NameClash
import NumericSteps.Proofs.Descent.Iterate
import NumericSteps.Proofs.Descent.OutcomeFile
import NumericSteps.Proofs.Workspace.Ownership
import NumericSteps.Proofs.Matrix.Grammar
import NumericSteps.Proofs.Descent.Failure
import NumericSteps.Proofs.Event.Delivery
import NumericSteps.Proofs.Event.Sessions
import NumericSteps.Proofs.Event.Reported
import NumericSteps.Proofs.Matrix.Deserialized
import NumericSteps.Proofs.Event.ReadBack
import NumericSteps.Proofs.Disk.Appender
import NumericSteps.Proofs.Matrix.Built
import NumericSteps.Proofs.Command.Readers
import NumericSteps.Proofs.Event.Trace
import NumericSteps.Proofs.Settings.RoundTrip
import NumericSteps.Proofs.Descent.Refinement
import NumericSteps.Proofs.Descent.SmallGradient
import NumericSteps.Proofs.Workspace.FileFailure
import NumericSteps.Proofs.Command.Telemetry
import NumericSteps.Proofs.Double.Arithmetic
import NumericSteps.Proofs.Matrix.Distance
import NumericSteps.Proofs.Compare.Gate
import NumericSteps.Proofs.Matrix.Algebra
import NumericSteps.Proofs.Matrix.Layout
import NumericSteps.Proofs.Matrix.Rows
import NumericSteps.Proofs.Matrix.Concatenation
import NumericSteps.Proofs.Workspace.Validation
import NumericSteps.Proofs.Workspace.FreshDirectory
import NumericSteps.Proofs.Generate.Sizes
import NumericSteps.Proofs.Scalar.Agreement
import NumericSteps.Proofs.Workspace.FirstLine
import NumericSteps.Proofs.Settings.Overlay
import NumericSteps.Proofs.Decimal.Shortest
import NumericSteps.Proofs.Double.Magnitude
import NumericSteps.Proofs.Scalar.Written
import NumericSteps.Proofs.Decimal.HalfEven
