import LowThrust.Binary64.Scalar
import LowThrust.Decimal.Binary64
import LowThrust.Integrator.DormandPrince
import LowThrust.Leg.Command
import LowThrust.Leg.Report
import LowThrust.Propagation.Request
import LowThrust.Sorting.Lemmas
import LowThrust.Throttle.Coverage
import LowThrust.Throttle.Uniform
import LowThrust.Proofs.Leg.Step
import LowThrust.Proofs.Binary64.Order
import LowThrust.Proofs.Leg.Invariant
import LowThrust.Proofs.Leg.Atomicity
import LowThrust.Proofs.Exact.Real
import LowThrust.Proofs.Shooting.Ballistic
import LowThrust.Proofs.Decimal.Digits
import LowThrust.Proofs.Json.Number
import LowThrust.Proofs.Json.Tokens
import LowThrust.Proofs.Json.RoundTrip
import LowThrust.Proofs.Json.Objects
import LowThrust.Proofs.Leg.Exchange
import LowThrust.Proofs.Binary64.Packing
import LowThrust.Proofs.Binary64.Rounding
import LowThrust.Proofs.Binary64.Reading
import LowThrust.Proofs.Binary64.Shortest
import LowThrust.Proofs.Shooting.Reversal
import LowThrust.Proofs.Propagation.Coasting
import LowThrust.Proofs.Shooting.Reference
import LowThrust.Proofs.Kepler.Universal
import LowThrust.Proofs.Kepler.Anomaly
import LowThrust.Proofs.Kepler.Lagrange
import LowThrust.Proofs.Kepler.Composition
import LowThrust.Proofs.Kepler.Motion
import LowThrust.Proofs.Symmetry.Isometry
import LowThrust.Proofs.Symmetry.Rotation
import LowThrust.Proofs.Faults
import LowThrust.Proofs.Leg.Destination
import LowThrust.Proofs.Binary64.Range
import LowThrust.Proofs.Leg.Layout
import LowThrust.Proofs.Leg.Outcomes
import LowThrust.Proofs.Finiteness
import LowThrust.Proofs.Binary64.NonFinite
import LowThrust.Proofs.Shooting.NonFinite
import LowThrust.Proofs.Shooting.ZeroIsp
import LowThrust.Proofs.Leg.Refusals
import LowThrust.Proofs.Propagation.Maneuvers
import LowThrust.Proofs.Kepler.Conservation
import LowThrust.Proofs.Kepler.Iteration
import LowThrust.Proofs.Shooting.IterationLimit
import LowThrust.Proofs.Symmetry.Transport
import LowThrust.Proofs.Symmetry.Delay
import LowThrust.Proofs.Symmetry.Mirror
import LowThrust.Proofs.Symmetry.Backward
import LowThrust.Proofs.Kepler.Circle
import LowThrust.Proofs.Propagation.Order
import LowThrust.Proofs.Propagation.OutputTimes
import LowThrust.Proofs.Propagation.Rows
import LowThrust.Proofs.Shooting.Masses
import LowThrust.Proofs.Shooting.Propellant
import LowThrust.Proofs.Shooting.Balance
import LowThrust.Proofs.Binary64.Nearest
import LowThrust.Proofs.Binary64.Arithmetic
import LowThrust.Proofs.Propagation.Ticks
import LowThrust.Proofs.Propagation.Acceptance
import LowThrust.Proofs.Throttle.Coverage
import LowThrust.Proofs.Throttle.Uniform
import LowThrust.Proofs.Shooting.Direction
import LowThrust.Proofs.Leg.History
import LowThrust.Proofs.Leg.Assignments
import LowThrust.Proofs.Kepler.Residual
import LowThrust.Proofs.Kepler.Guess
import LowThrust.Proofs.Kepler.Series
