import ForwardBackward.Array.Axis
import ForwardBackward.Array.Basic
import ForwardBackward.Array.Entries
import ForwardBackward.Array.Kind
import ForwardBackward.Array.Matrix
import ForwardBackward.Bare
import ForwardBackward.Call
import ForwardBackward.Cartesian
import ForwardBackward.Config
import ForwardBackward.Count
import ForwardBackward.Envelope
import ForwardBackward.Exports
import ForwardBackward.Failure
import ForwardBackward.Fault
import ForwardBackward.Halting
import ForwardBackward.History
import ForwardBackward.Limited
import ForwardBackward.LineSearch
import ForwardBackward.Minimize
import ForwardBackward.Observation
import ForwardBackward.Regularizer
import ForwardBackward.Report
import ForwardBackward.Run
import ForwardBackward.Scalar
import ForwardBackward.Scalar.Double
import ForwardBackward.Session
import ForwardBackward.Solver
import ForwardBackward.Source
import ForwardBackward.State
import ForwardBackward.StepSize
import ForwardBackward.Text.Decimal
import ForwardBackward.Text.Integer
import ForwardBackward.Text.Invisible
import ForwardBackward.Text.Quoted
import ForwardBackward.Transform.Band
import ForwardBackward.Transform.Basic
import ForwardBackward.Transform.Function
import ForwardBackward.Tree.Basic
import ForwardBackward.Tree.Skeleton
import ForwardBackward.Vec
import ForwardBackward.Proofs.Computations
import ForwardBackward.Proofs.Effects
import ForwardBackward.Proofs.Exact
import ForwardBackward.Proofs.Numbers
import ForwardBackward.Proofs.Points
import ForwardBackward.Proofs.Course
import ForwardBackward.Proofs.Secants
import ForwardBackward.Proofs.Buffers
import ForwardBackward.Proofs.Launch
import ForwardBackward.Proofs.Recall
import ForwardBackward.Proofs.Consistency
import ForwardBackward.Proofs.Smooth
import ForwardBackward.Proofs.Backtracking
import ForwardBackward.Proofs.Descent
import ForwardBackward.Proofs.Boxes
import ForwardBackward.Proofs.Shrinkage
import ForwardBackward.Proofs.Proximal
import ForwardBackward.Proofs.Objective
import ForwardBackward.Proofs.Progress
import ForwardBackward.Proofs.GradientDescent
import ForwardBackward.Proofs.Multiples
import ForwardBackward.Proofs.Slots
import ForwardBackward.Proofs.Queue
import ForwardBackward.Proofs.InverseHessian
import ForwardBackward.Proofs.Reached
import ForwardBackward.Proofs.TwoLoop
import ForwardBackward.Proofs.Mirrors
import ForwardBackward.Proofs.Tally
import ForwardBackward.Proofs.Accounting
import ForwardBackward.Proofs.Parallel
import ForwardBackward.Proofs.Lockstep
import ForwardBackward.Proofs.Shapes
import ForwardBackward.Proofs.Floating
import ForwardBackward.Proofs.Attribution
import ForwardBackward.Proofs.Catalogue
import ForwardBackward.Proofs.Clipping
import ForwardBackward.Proofs.Directions
import ForwardBackward.Proofs.Finiteness
import ForwardBackward.Proofs.Reported
import ForwardBackward.Proofs.Searches
import ForwardBackward.Proofs.Rows
import ForwardBackward.Proofs.Flattening
import ForwardBackward.Proofs.Minimizers
import ForwardBackward.Proofs.Envelopes
import ForwardBackward.Proofs.Endings
import ForwardBackward.Proofs.Dialogue
import ForwardBackward.Proofs.Protocol
import ForwardBackward.Proofs.Trajectory
import ForwardBackward.Proofs.Pairings
import ForwardBackward.Proofs.Matrices
import ForwardBackward.Proofs.Transforms
import ForwardBackward.Proofs.Diagonals
import ForwardBackward.Proofs.Transposition
import ForwardBackward.Proofs.Adjoints
import ForwardBackward.Proofs.Operators
import ForwardBackward.Proofs.Halvings
import ForwardBackward.Proofs.Convexity
import ForwardBackward.Proofs.SmallerSteps
import ForwardBackward.Proofs.Optimality
import ForwardBackward.Proofs.Memory
import ForwardBackward.Proofs.Iterations
import ForwardBackward.Proofs.Absorption
import ForwardBackward.Proofs.Attempts
import ForwardBackward.Proofs.Lengths
import ForwardBackward.Proofs.SecantCondition
import ForwardBackward.Proofs.Diagnostics
import ForwardBackward.Proofs.Rounding
import ForwardBackward.Proofs.Doubles
import ForwardBackward.Proofs.DoubleOrder
import ForwardBackward.Proofs.Underflow
import ForwardBackward.Proofs.Probes
import ForwardBackward.Proofs.Fallbacks
import ForwardBackward.Proofs.DataTerms
import ForwardBackward.Proofs.Estimates
import ForwardBackward.Proofs.Curvatures
import ForwardBackward.Proofs.Notes
import ForwardBackward.Proofs.Narration
