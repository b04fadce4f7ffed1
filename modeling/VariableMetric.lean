import VariableMetric.Buffer.Factor
import VariableMetric.Buffer.Slice
import VariableMetric.Config.Strategy
import VariableMetric.Decimal.Layout
import VariableMetric.Decimal.Reader
import VariableMetric.Double.Scalar
import VariableMetric.FeasibleSet.Arrays
import VariableMetric.LineSearch.Any
import VariableMetric.Main
import VariableMetric.Memory.Arrays
import VariableMetric.Memory.Direction
import VariableMetric.Memory.Room
import VariableMetric.Minimize
import VariableMetric.Objective.Samples
import VariableMetric.Proofs.Broadcasting
import VariableMetric.Proofs.Double.Bits
import VariableMetric.Proofs.Double.Rounding
import VariableMetric.Proofs.Exact
import VariableMetric.Proofs.Exact.Order
import VariableMetric.Proofs.Exact.Vectors
import VariableMetric.Proofs.FeasibleSet.Box
import VariableMetric.Proofs.FeasibleSet.Confines
import VariableMetric.Proofs.FeasibleSet.Interior
import VariableMetric.Proofs.FeasibleSet.Kept
import VariableMetric.Proofs.FeasibleSet.RealBox
import VariableMetric.Proofs.LineSearch.Caps
import VariableMetric.Proofs.LineSearch.Steps
import VariableMetric.Proofs.LineSearch.Strategy
import VariableMetric.Proofs.LineSearch.Trials
import VariableMetric.Proofs.Memory.Descent
import VariableMetric.Proofs.Memory.Direction
import VariableMetric.Proofs.Memory.InverseHessian
import VariableMetric.Proofs.Memory.Ring
import VariableMetric.Proofs.Run.Acceptance
import VariableMetric.Proofs.Run.Approach
import VariableMetric.Proofs.Run.Budget
import VariableMetric.Proofs.Run.Capped
import VariableMetric.Proofs.Run.Comparison
import VariableMetric.Proofs.Run.Counters
import VariableMetric.Proofs.Run.Decrease
import VariableMetric.Proofs.Run.Descent
import VariableMetric.Proofs.Run.Faults
import VariableMetric.Proofs.Run.Feasible
import VariableMetric.Proofs.Run.Growth
import VariableMetric.Proofs.Run.Inactive
import VariableMetric.Proofs.Run.Protocol
import VariableMetric.Proofs.Run.Remembered
import VariableMetric.Proofs.Run.Restarts
import VariableMetric.Proofs.Run.Returned
import VariableMetric.Proofs.Run.Reuse
import VariableMetric.Proofs.Run.Searches
import VariableMetric.Proofs.ScalarOrder
import VariableMetric.Run
import VariableMetric.Status
import VariableMetric.Tensor.Element
import VariableMetric.Text.Lines
import VariableMetric.Text.LowerCase
import VariableMetric.Text.Numeral
import VariableMetric.Text.Printable
import VariableMetric.Value
import VariableMetric.Value.Array
import VariableMetric.Value.Number
import VariableMetric.Vec.Algebra
import VariableMetric.Proofs.Exact.Hidden
import VariableMetric.Proofs.Memory.Rescaling
import VariableMetric.Proofs.LineSearch.Rescaling
import VariableMetric.Proofs.FeasibleSet.Rescaling
import VariableMetric.Proofs.Run.Rescaling
import VariableMetric.Proofs.Run.Indifference
import VariableMetric.Proofs.Double.Overflow
import VariableMetric.Proofs.Run.Curvature
import VariableMetric.Proofs.Run.Finiteness
import VariableMetric.Proofs.Double.Arithmetic
import VariableMetric.Proofs.Memory.History
import VariableMetric.Proofs.Memory.Interrupted
import VariableMetric.Proofs.Memory.Answers
import VariableMetric.Proofs.LineSearch.Bracket
import VariableMetric.Proofs.LineSearch.Conditions
import VariableMetric.Proofs.LineSearch.Interpolation
import VariableMetric.Proofs.LineSearch.Window
import VariableMetric.Proofs.Buffer.Cells
import VariableMetric.Proofs.Buffer.Combine
import VariableMetric.Proofs.Double.Nearest
import VariableMetric.Proofs.Double.Order
import VariableMetric.Proofs.FeasibleSet.Path
import VariableMetric.Proofs.FeasibleSet.Stationary
import VariableMetric.Proofs.LineSearch.Reach
import VariableMetric.Proofs.Run.TrialSteps
import VariableMetric.Proofs.Run.Printed
import VariableMetric.Proofs.Run.Table
import VariableMetric.Proofs.Double.Whole
import VariableMetric.Proofs.Config.Tolerances
import VariableMetric.Proofs.Config.Built
