import ConsLisp.Frame.Script
import ConsLisp.Cell.Equality
import ConsLisp.Main
import ConsLisp.Session
import ConsLisp.Proofs.Checks
import ConsLisp.Proofs.Related
import ConsLisp.Proofs.Growth
import ConsLisp.Proofs.StackDiscipline
import ConsLisp.Proofs.Visibility
import ConsLisp.Proofs.UnusedDefinition
import ConsLisp.Proofs.Guarded
import ConsLisp.Proofs.OperatorFree
import ConsLisp.Proofs.Budget
import ConsLisp.Proofs.Simulation
import ConsLisp.Proofs.Trace
import ConsLisp.Proofs.Calling
import ConsLisp.Proofs.OutputLimit
import ConsLisp.Proofs.Points
import ConsLisp.Proofs.Ledger
import ConsLisp.Proofs.WriteOnce
import ConsLisp.Proofs.EventRecord
import ConsLisp.Proofs.MalformedCalls
import ConsLisp.Proofs.Termination
import ConsLisp.Proofs.Abort
import ConsLisp.Proofs.Application
import ConsLisp.Proofs.Definition
import ConsLisp.Proofs.Interchange
import ConsLisp.Proofs.TrueErrors
import ConsLisp.Proofs.Forms
import ConsLisp.Proofs.Rebuilding
import ConsLisp.Proofs.Calculation
import ConsLisp.Proofs.Splitting
import ConsLisp.Proofs.DoubleOrder
import ConsLisp.Proofs.IntegerArithmetic
import ConsLisp.Proofs.Comparison
import ConsLisp.Proofs.Selection
import ConsLisp.Proofs.FrameHistory
import ConsLisp.Proofs.CellEquality
import ConsLisp.Proofs.Reading
import ConsLisp.Proofs.StackMachine
import ConsLisp.Proofs.Positional
import ConsLisp.Proofs.Mirroring
import ConsLisp.Proofs.FaultFree
import ConsLisp.Proofs.Iteration
