import Qudit.Acting.BasisState
import Qudit.Acting.Scripted
import Qudit.Acting.StateVector
import Qudit.Circuit.Text
import Qudit.Config.Environment
import Qudit.Deprecation.Script
import Qudit.Proofs.Acting.Axes
import Qudit.Proofs.Acting.Records
import Qudit.Proofs.Acting.Safety
import Qudit.Proofs.Acting.Transparency
import Qudit.Proofs.Simulation.Adjoint
import Qudit.Proofs.Simulation.BasisState
import Qudit.Proofs.Simulation.Isometry
import Qudit.Proofs.Simulation.Soundness
import Qudit.Simulator
import Qudit.Proofs.Acting.Primitive
import Qudit.Proofs.Exact.Commutation
import Qudit.Proofs.Acting.Alike
import Qudit.Proofs.Simulation.Composition
import Qudit.Proofs.Simulation.Draws
import Qudit.Proofs.Acting.MatrixSize
import Qudit.Proofs.Circuit.WellFormed
import Qudit.Proofs.Operation.Relabelling
import Qudit.Proofs.Acting.Parallel
import Qudit.Proofs.Acting.Renaming
import Qudit.Proofs.Simulation.Masks
import Qudit.Proofs.Acting.Locality
import Qudit.Proofs.Acting.RepeatedAxes
import Qudit.Proofs.Acting.Halfway
import Qudit.Proofs.Simulation.Supported
import Qudit.Proofs.Acting.Exchange
import Qudit.Proofs.Deprecation.Visits
import Qudit.Proofs.Deprecation.Outcome
import Qudit.Proofs.Deprecation.Record
import Qudit.Proofs.Deprecation.Captures
import Qudit.Proofs.Deprecation.Governance
import Qudit.Proofs.Deprecation.Once
import Qudit.Proofs.State.Born
import Qudit.Proofs.State.Controlled
import Qudit.Proofs.Acting.MissingSites
import Qudit.Proofs.State.Vanishing
import Qudit.Proofs.State.Repeating
import Qudit.Proofs.Kernel.Image
import Qudit.Proofs.Exact.Composition
import Qudit.Proofs.Exact.Diagonal
import Qudit.Proofs.State.Shots
import Qudit.Proofs.Gate.Sites
import Qudit.Proofs.Deprecation.Deadline
import Qudit.Proofs.Gate.Adjoint
import Qudit.Proofs.Config.Library
import Qudit.Proofs.Kernel.Partition
import Qudit.Proofs.Word.Marginals
import Qudit.Proofs.Word.Positions
